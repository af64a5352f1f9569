-- The tokens of a value, and that its text has just these tokens, on one line or over
-- several. No number in the value may be a double.
import Netlist.Json.Printer
import Netlist.Json.Token
import Netlist.Proofs.Json.Numerals

namespace Netlist.Json

/-! ## Values without doubles -/

mutual

/-- Whether no number in the value, at any depth, is a double. -/
def floatFree : Json → Bool
  | number (.float _) => false
  | array items => floatFreeItems items
  | object members => floatFreeMembers members
  | _ => true

def floatFreeItems : List Json → Bool
  | [] => true
  | v :: rest => v.floatFree && floatFreeItems rest

def floatFreeMembers : List (String × Json) → Bool
  | [] => true
  | (_, v) :: rest => v.floatFree && floatFreeMembers rest

end

theorem floatFreeItems_cons {v : Json} {rest : List Json} :
    floatFreeItems (v :: rest) = true ↔ v.floatFree = true ∧ floatFreeItems rest = true := by
  rw [floatFreeItems, Bool.and_eq_true]

theorem floatFreeMembers_cons {k : String} {v : Json} {rest : List (String × Json)} :
    floatFreeMembers ((k, v) :: rest) = true ↔
      v.floatFree = true ∧ floatFreeMembers rest = true := by
  rw [floatFreeMembers, Bool.and_eq_true]

/-! ## The tokens of a value -/

mutual

def tokens : Json → List Token
  | null => [.null]
  | bool b => [.bool b]
  | number n => [.number n]
  | string s => [.string s]
  | array items => .beginArray :: (itemTokens items ++ [.endArray])
  | object members => .beginObject :: (memberTokens members ++ [.endObject])

def itemTokens : List Json → List Token
  | [] => []
  | [v] => v.tokens
  | v :: rest => v.tokens ++ .comma :: itemTokens rest

def memberTokens : List (String × Json) → List Token
  | [] => []
  | [(k, v)] => .string k :: .colon :: v.tokens
  | (k, v) :: rest => .string k :: .colon :: (v.tokens ++ .comma :: memberTokens rest)

end

namespace Token

/-! ## Scanning from the middle of a text -/

/-- What a scanner makes of the rest of a text. -/
def Scanner.read (s : Scanner) (cs : List Char) : Except TextError (List Token) := do
  (← cs.foldlM Scanner.step s).finish

variable {done : List Token} {seen after cs : List Char} {c : Char}

theorem Scanner.read_cons (s : Scanner) (c : Char) (cs : List Char) :
    s.read (c :: cs) = s.step c >>= fun s' => s'.read cs := by
  rw [read, List.foldlM_cons, bind_assoc]
  rfl

theorem Scanner.read_of_step {s s' : Scanner} (h : s.step c = .ok s') :
    s.read (c :: cs) = s'.read cs := by
  rw [read_cons, h]
  rfl

/-- Whether a word or a number before a text ends where the text begins. -/
def Ends (after : List Char) : Prop :=
  ∀ c ∈ after.head?, isWordChar c = false ∧ isNumeralChar c = false

theorem ends_cons (word : isWordChar c = false) (numeral : isNumeralChar c = false)
    (cs : List Char) : Ends (c :: cs) := by
  rintro _ ⟨⟩
  exact ⟨word, numeral⟩

theorem ends_comma (cs : List Char) : Ends (',' :: cs) := ends_cons rfl rfl cs

theorem ends_endArray (cs : List Char) : Ends (']' :: cs) := ends_cons rfl rfl cs

theorem ends_endObject (cs : List Char) : Ends ('}' :: cs) := ends_cons rfl rfl cs

theorem ends_newline (indent depth : Nat) (cs : List Char) :
    Ends (newline indent depth ++ cs) := ends_cons rfl rfl _

/-! ## Words and numbers -/

/-- A word is complete where the text after it begins. -/
theorem read_word {t : Token} (h : ofWord? (String.ofList seen.reverse) = some t)
    (ends : Ends after) :
    (Scanner.mk (.word seen) done).read after = (Scanner.mk .between (t :: done)).read after := by
  have closed : closeWord done seen = .ok (t :: done) := by
    rw [closeWord, h]
  cases after with
  | nil =>
    show (closeWord done seen).map List.reverse = _
    rw [closed]
    rfl
  | cons c rest =>
    have step : (Scanner.mk (.word seen) done).step c = startStep (t :: done) c := by
      show (if isWordChar c then _ else _) = _
      rw [(ends c rfl).1, closed]
      rfl
    rw [Scanner.read_cons, step, Scanner.read_cons]
    rfl

theorem read_numeral {n : JsonNumber} (h : JsonNumber.ofText? seen.reverse = some n)
    (ends : Ends after) :
    (Scanner.mk (.numeral seen) done).read after =
      (Scanner.mk .between (.number n :: done)).read after := by
  have closed : closeNumeral done seen = .ok (.number n :: done) := by
    rw [closeNumeral, h]
  cases after with
  | nil =>
    show (closeNumeral done seen).map List.reverse = _
    rw [closed]
    rfl
  | cons c rest =>
    have step : (Scanner.mk (.numeral seen) done).step c = startStep (.number n :: done) c := by
      show (if isNumeralChar c then _ else _) = _
      rw [(ends c rfl).2, closed]
      rfl
    rw [Scanner.read_cons, step, Scanner.read_cons]
    rfl

theorem isNumeralStart_iff : isNumeralStart c = true ↔ c = '-' ∨ '0' ≤ c ∧ c ≤ '9' := by
  rw [isNumeralStart, Bool.or_eq_true, beq_iff_eq, decide_eq_true_iff]

/-- The first character of a number begins nothing else. -/
theorem startStep_numeral (h : isNumeralStart c = true) :
    startStep done c = .ok ⟨.numeral [c], done⟩ := by
  have other {d : Char} (hd : isNumeralStart d = false) : c ≠ d := by
    rintro rfl
    rw [h] at hd
    cases hd
  have blank : isBlank c = false := by
    simp only [isBlank, Bool.or_eq_false_iff, beq_eq_false_iff_ne]
    exact ⟨⟨⟨other rfl, other rfl⟩, other rfl⟩, other rfl⟩
  have word : isWordChar c = false := by
    rw [isWordChar, decide_eq_false_iff_not]
    rintro ⟨low, -⟩
    rcases isNumeralStart_iff.1 h with rfl | ⟨-, high⟩
    · exact absurd low (by decide)
    · exact absurd (Char.le_trans low high) (by decide)
  have marks : c ≠ '[' ∧ c ≠ ']' ∧ c ≠ '{' ∧ c ≠ '}' ∧ c ≠ ',' ∧ c ≠ ':' ∧ c ≠ '"' :=
    ⟨other rfl, other rfl, other rfl, other rfl, other rfl, other rfl, other rfl⟩
  simp only [startStep, blank, marks, word, h, Bool.false_eq_true, if_false, if_true]

theorem read_numeralChars (h : ∀ c ∈ cs, isNumeralStart c = true) :
    (Scanner.mk (.numeral seen) done).read (cs ++ after) =
      (Scanner.mk (.numeral (cs.reverse ++ seen)) done).read after := by
  induction cs generalizing seen with
  | nil => rfl
  | cons c rest ih =>
    have step : (Scanner.mk (.numeral seen) done).step c = .ok ⟨.numeral (c :: seen), done⟩ :=
      if_pos (by rw [isNumeralChar, h c List.mem_cons_self]; rfl)
    rw [List.cons_append, Scanner.read_of_step step,
      ih fun c hc => h c (List.mem_cons_of_mem _ hc), List.reverse_cons, List.append_assoc]
    rfl

/-! ## Strings -/

theorem hexDigit?_hexChar : ∀ d < 16, hexDigit? (hexChar d) = some d := by
  decide

/-- A control character is read back from its two digits. -/
theorem read_control {c : Char} (control : c.toNat < 0x20) (cs : List Char) :
    (Scanner.mk (.unit seen none 2 0) done).read
        (hexChar (c.toNat / 16) :: hexChar (c.toNat % 16) :: cs) =
      (Scanner.mk (.text (c :: seen)) done).read cs := by
  have high : (Scanner.mk (.unit seen none 2 0) done).step (hexChar (c.toNat / 16)) =
      .ok ⟨.unit seen none 3 (c.toNat / 16), done⟩ := by
    rw [Scanner.step, hexDigit?_hexChar _ (by omega)]
    dsimp only
    rw [if_pos (by decide), Nat.mul_zero, Nat.zero_add]
  have value : 16 * (c.toNat / 16) + c.toNat % 16 = c.toNat := by omega
  have whole : afterUnit seen none c.toNat = .ok (.text (c :: seen)) := by
    rw [afterUnit, isHighHalf, isLowHalf, decide_eq_false (by omega), decide_eq_false (by omega),
      Char.ofNat_toNat]
    rfl
  have low : (Scanner.mk (.unit seen none 3 (c.toNat / 16)) done).step (hexChar (c.toNat % 16)) =
      .ok ⟨.text (c :: seen), done⟩ := by
    rw [Scanner.step, hexDigit?_hexChar _ (by omega)]
    dsimp only
    rw [if_neg (by decide), value, whole]
    rfl
  rw [Scanner.read_of_step high, Scanner.read_of_step low]

/-- A character is read back, however it is escaped. -/
theorem read_escape (c : Char) (cs : List Char) :
    (Scanner.mk (.text seen) done).read (escape c ++ cs) =
      (Scanner.mk (.text (c :: seen)) done).read cs := by
  unfold escape
  split
  case h_8 =>
    rename_i quote backslash _ _ _ _ _
    split
    · rename_i control
      exact read_control control cs
    · rename_i printable
      refine Scanner.read_of_step ?_
      show (if c = '"' then _ else if c = '\\' then _ else if c.toNat < 0x20 then _ else _) = _
      rw [if_neg quote, if_neg backslash, if_neg printable]
  all_goals rfl

theorem read_text (cs : List Char) :
    (Scanner.mk (.text seen) done).read (cs.flatMap escape ++ '"' :: after) =
      (Scanner.mk .between (.string (String.ofList (cs.reverse ++ seen).reverse) :: done)).read
        after := by
  induction cs generalizing seen with
  | nil => rfl
  | cons c rest ih =>
    rw [List.flatMap_cons, List.append_assoc, read_escape, ih, List.reverse_cons,
      List.append_assoc]
    rfl

/-! ## Texts and their tokens -/

/-- Whether a text is some tokens, and then another text. -/
def Scans (cs : List Char) (ts : List Token) (after : List Char) : Prop :=
  ∀ done, (Scanner.mk .between done).read cs = (Scanner.mk .between (ts.reverse ++ done)).read after

theorem Scans.trans {cs mid after : List Char} {ts us : List Token} (h : Scans cs ts mid)
    (h' : Scans mid us after) : Scans cs (ts ++ us) after := fun done => by
  rw [h, h', List.reverse_append, List.append_assoc]

/-- The scanner holds the tokens of the text before, so they come first. -/
theorem Scans.scan {cs : List Char} {ts : List Token} (h : Scans cs ts []) :
    scan cs = .ok ts := by
  have read := h []
  rw [List.append_nil] at read
  exact read.trans (congrArg Except.ok (List.reverse_reverse ts))

/-- A line break at the end completes the last token, as the end of the text does. -/
theorem Scanner.read_newline {s : Scanner} {ts : List Token} (h : s.finish = .ok ts) :
    s.read ['\n'] = .ok ts := by
  obtain ⟨mode, done⟩ := s
  cases mode with
  | between => exact h
  | word seen =>
    change (closeWord done seen).map List.reverse = .ok ts at h
    rw [closeWord] at h
    split at h
    · rename_i t word
      rw [read_word word (ends_cons rfl rfl [])]
      exact h
    · cases h
  | numeral seen =>
    change (closeNumeral done seen).map List.reverse = .ok ts at h
    rw [closeNumeral] at h
    split at h
    · rename_i n number
      rw [read_numeral number (ends_cons rfl rfl [])]
      exact h
    · cases h
  | _ => cases h

theorem scan_newline {cs : List Char} {ts : List Token} (h : scan cs = .ok ts) :
    scan (cs ++ ['\n']) = .ok ts := by
  rw [scan] at h ⊢
  rw [List.foldlM_append]
  generalize cs.foldlM Scanner.step ⟨.between, []⟩ = folded at h ⊢
  cases folded with
  | error e => cases h
  | ok s => exact Scanner.read_newline h

theorem scans_beginArray (cs : List Char) : Scans ('[' :: cs) [.beginArray] cs := fun _ => rfl

theorem scans_endArray (cs : List Char) : Scans (']' :: cs) [.endArray] cs := fun _ => rfl

theorem scans_beginObject (cs : List Char) : Scans ('{' :: cs) [.beginObject] cs := fun _ => rfl

theorem scans_endObject (cs : List Char) : Scans ('}' :: cs) [.endObject] cs := fun _ => rfl

theorem scans_comma (cs : List Char) : Scans (',' :: cs) [.comma] cs := fun _ => rfl

theorem scans_colon (cs : List Char) : Scans (':' :: cs) [.colon] cs := fun _ => rfl

theorem scans_space (cs : List Char) : Scans (' ' :: cs) [] cs := fun _ => rfl

theorem scans_newline (indent depth : Nat) (cs : List Char) :
    Scans (newline indent depth ++ cs) [] cs := by
  have spaces (n : Nat) : Scans (List.replicate n ' ' ++ cs) [] cs := by
    induction n with
    | zero => exact fun _ => rfl
    | succ n ih => exact (scans_space _).trans ih
  exact spaces (indent * depth)

theorem scans_quote (s : String) (cs : List Char) : Scans (quote s ++ cs) [.string s] cs := by
  intro done
  have text := @read_text done [] cs s.toList
  rw [List.append_nil, List.reverse_reverse, String.ofList_toList] at text
  rw [quote, List.append_assoc]
  exact text

theorem scans_null (ends : Ends after) : Scans ("null".toList ++ after) [.null] after :=
  fun done => @read_word done "llun".toList after _ rfl ends

theorem scans_bool (b : Bool) (ends : Ends after) :
    Scans (scalarChars (.bool b) ++ after) [.bool b] after := by
  intro done
  cases b with
  | true => exact @read_word done "eurt".toList after _ rfl ends
  | false => exact @read_word done "eslaf".toList after _ rfl ends

theorem scans_int {i : Int} (h : (JsonNumber.int i).WellFormed) (ends : Ends after) :
    Scans ((JsonNumber.int i).render.toList ++ after) [.number (.int i)] after := by
  intro done
  have read := JsonNumber.ofText?_render_int h
  obtain ⟨c, rest, text, starts⟩ := JsonNumber.render_int_eq_cons i
  rw [text] at read ⊢
  have step : (Scanner.mk .between done).step c = .ok ⟨.numeral [c], done⟩ :=
    startStep_numeral (starts c List.mem_cons_self)
  rw [List.cons_append, Scanner.read_of_step step,
    read_numeralChars fun c hc => starts c (List.mem_cons_of_mem _ hc)]
  refine read_numeral ?_ ends
  rw [List.reverse_append, List.reverse_reverse]
  exact read


end Token

/-! ## The text of a value -/

open Token

mutual

/-- The text on one line is the tokens of the value. -/
theorem scans_compact : ∀ (v : Json) {after : List Char}, v.WellFormed → v.floatFree = true →
    Ends after → Scans (compactChars v after) v.tokens after
  | null, _, _, _, ends => scans_null ends
  | bool b, _, _, _, ends => scans_bool b ends
  | number (.int _), _, wf, _, ends => scans_int wf ends
  | string s, _, _, _, _ => scans_quote s _
  | array items, _, wf, free, _ =>
    (scans_beginArray _).trans ((scans_compactItems items wf free (ends_endArray _)).trans
      (scans_endArray _))
  | object members, _, wf, free, _ =>
    (scans_beginObject _).trans ((scans_compactMembers members wf.2 free (ends_endObject _)).trans
      (scans_endObject _))

theorem scans_compactItems : ∀ (vs : List Json) {after : List Char}, WellFormedItems vs →
    floatFreeItems vs = true → Ends after → Scans (compactItems vs after) (itemTokens vs) after
  | [], _, _, _, _ => fun _ => rfl
  | [v], _, wf, free, ends => scans_compact v wf.1 (floatFreeItems_cons.1 free).1 ends
  | v :: w :: rest, _, wf, free, ends =>
    (scans_compact v wf.1 (floatFreeItems_cons.1 free).1 (ends_comma _)).trans
      ((scans_comma _).trans
        (scans_compactItems (w :: rest) wf.2 (floatFreeItems_cons.1 free).2 ends))

theorem scans_compactMembers : ∀ (ms : List (String × Json)) {after : List Char},
    WellFormedMembers ms → floatFreeMembers ms = true → Ends after →
    Scans (compactMembers ms after) (memberTokens ms) after
  | [], _, _, _, _ => fun _ => rfl
  | [(k, v)], _, wf, free, ends =>
    (scans_quote k _).trans ((scans_colon _).trans
      (scans_compact v wf.1 (floatFreeMembers_cons.1 free).1 ends))
  | (k, v) :: m :: rest, _, wf, free, ends =>
    (scans_quote k _).trans ((scans_colon _).trans
      ((scans_compact v wf.1 (floatFreeMembers_cons.1 free).1 (ends_comma _)).trans
        ((scans_comma _).trans
          (scans_compactMembers (m :: rest) wf.2 (floatFreeMembers_cons.1 free).2 ends))))

end

mutual

/-- And so is the text over several lines. -/
theorem scans_pretty (indent depth : Nat) : ∀ (v : Json) {after : List Char}, v.WellFormed →
    v.floatFree = true → Ends after → Scans (prettyChars indent depth v after) v.tokens after
  | null, _, _, _, ends => scans_null ends
  | bool b, _, _, _, ends => scans_bool b ends
  | number (.int _), _, wf, _, ends => scans_int wf ends
  | string s, _, _, _, _ => scans_quote s _
  | array [], _, _, _, _ => (scans_beginArray _).trans (scans_endArray _)
  | array (v :: rest), _, wf, free, _ =>
    (scans_beginArray _).trans ((scans_prettyItems indent (depth + 1) (v :: rest) wf free
      (ends_newline _ _ _)).trans ((scans_newline _ _ _).trans (scans_endArray _)))
  | object [], _, _, _, _ => (scans_beginObject _).trans (scans_endObject _)
  | object (m :: rest), _, wf, free, _ =>
    (scans_beginObject _).trans ((scans_prettyMembers indent (depth + 1) (m :: rest) wf.2 free
      (ends_newline _ _ _)).trans ((scans_newline _ _ _).trans (scans_endObject _)))

theorem scans_prettyItems (indent depth : Nat) : ∀ (vs : List Json) {after : List Char},
    WellFormedItems vs → floatFreeItems vs = true → Ends after →
    Scans (prettyItems indent depth vs after) (itemTokens vs) after
  | [], _, _, _, _ => fun _ => rfl
  | [v], _, wf, free, ends =>
    (scans_newline _ _ _).trans
      (scans_pretty indent depth v wf.1 (floatFreeItems_cons.1 free).1 ends)
  | v :: w :: rest, _, wf, free, ends =>
    (scans_newline _ _ _).trans
      ((scans_pretty indent depth v wf.1 (floatFreeItems_cons.1 free).1 (ends_comma _)).trans
        ((scans_comma _).trans (scans_prettyItems indent depth (w :: rest) wf.2
          (floatFreeItems_cons.1 free).2 ends)))

theorem scans_prettyMembers (indent depth : Nat) : ∀ (ms : List (String × Json))
    {after : List Char}, WellFormedMembers ms → floatFreeMembers ms = true → Ends after →
    Scans (prettyMembers indent depth ms after) (memberTokens ms) after
  | [], _, _, _, _ => fun _ => rfl
  | [(k, v)], _, wf, free, ends => by
    rw [prettyMembers, List.append_assoc]
    exact (scans_newline _ _ _).trans ((scans_quote k _).trans ((scans_colon _).trans
      ((scans_space _).trans
        (scans_pretty indent depth v wf.1 (floatFreeMembers_cons.1 free).1 ends))))
  | (k, v) :: m :: rest, _, wf, free, ends => by
    rw [prettyMembers, List.append_assoc]
    · exact (scans_newline _ _ _).trans ((scans_quote k _).trans ((scans_colon _).trans
        ((scans_space _).trans
          ((scans_pretty indent depth v wf.1 (floatFreeMembers_cons.1 free).1 (ends_comma _)).trans
            ((scans_comma _).trans (scans_prettyMembers indent depth (m :: rest) wf.2
              (floatFreeMembers_cons.1 free).2 ends))))))
    · rintro ⟨⟩

end

theorem scan_render (indent : Nat) {v : Json} (wf : v.WellFormed) (free : v.floatFree = true) :
    scan (v.render indent).toList = .ok v.tokens := by
  have ends : Ends [] := by rintro _ ⟨⟩
  rw [render]
  split
  · rw [compact, String.toList_ofList]
    exact (scans_compact v wf free ends).scan
  · rw [pretty, String.toList_ofList]
    exact (scans_pretty indent 0 v wf free ends).scan

end Netlist.Json
