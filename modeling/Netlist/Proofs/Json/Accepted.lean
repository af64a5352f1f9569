-- Whatever text is read as JSON, the value is well-formed and not nested too deeply. Each
-- number fits because its significand does, each object has its keys once because they are
-- set one after another, and the open containers bound the nesting.
import Netlist.Json.Reader
import Netlist.Proofs.Json.WellFormed

namespace Netlist

theorem exists_of_bind_eq_ok {ε α β : Type} {x : Except ε α} {f : α → Except ε β} {b : β}
    (h : (x >>= f) = .ok b) : ∃ a, x = .ok a ∧ f a = .ok b := by
  cases x with
  | error e => cases h
  | ok a => exact ⟨a, rfl, h⟩

theorem exists_of_map_eq_ok {ε α β : Type} {x : Except ε α} {f : α → β} {b : β}
    (h : x.map f = .ok b) : ∃ a, x = .ok a ∧ f a = b := by
  cases x with
  | error e => cases h
  | ok a => exact ⟨a, rfl, Except.ok.inj h⟩

/-- What each step keeps is kept by all steps. -/
theorem foldlM_keeps {σ τ ε : Type} {step : σ → τ → Except ε σ} {I : σ → Prop} {P : τ → Prop}
    (keeps : ∀ {s s' t}, I s → P t → step s t = .ok s' → I s') {ts : List τ} {s s' : σ}
    (start : I s) (all : ∀ t ∈ ts, P t) (h : ts.foldlM step s = .ok s') : I s' := by
  induction ts generalizing s with
  | nil => cases h; exact start
  | cons t rest ih =>
    rw [List.foldlM_cons] at h
    obtain ⟨next, stepped, h⟩ := exists_of_bind_eq_ok h
    exact ih (keeps start (all t List.mem_cons_self) stepped)
      (fun t ht => all t (List.mem_cons_of_mem _ ht)) h

/-! ## Numbers -/

namespace JsonNumber

theorem wholeSignificand_le {n : Nat} (h : n ≤ significandLimit) (ds : List Nat) :
    (wholeSignificand n ds).1 ≤ significandLimit := by
  induction ds generalizing n with
  | nil => exact h
  | cons d rest ih =>
    rw [wholeSignificand]
    split
    · exact ih ‹_›
    · exact h

theorem wellFormed_floatOf {negative : Bool} {significand : Nat} {exponent : Int} {n : JsonNumber}
    (h : floatOf? negative significand exponent = some n) : n.WellFormed := by
  unfold floatOf? at h
  obtain ⟨x, -, h⟩ := Option.bind_eq_some_iff.1 h
  obtain ⟨y, -, h⟩ := Option.bind_eq_some_iff.1 h
  cases h
  trivial

/-- A number that is read fits 64 bits or is a double. -/
theorem wellFormed_ofText {cs : List Char} {n : JsonNumber} (h : ofText? cs = some n) :
    n.WellFormed := by
  obtain ⟨numeral, -, h⟩ := Option.bind_eq_some_iff.1 h
  have limit : significandLimit = 2 ^ 64 - 1 := rfl
  have half : UInt64.size / 2 = 2 ^ 63 := rfl
  have fits := wholeSignificand_le (Nat.zero_le _ : 0 ≤ significandLimit) numeral.whole
  unfold ofNumeral? at h
  generalize wholeSignificand 0 numeral.whole = whole at h fits
  obtain ⟨w, left⟩ := whole
  dsimp only at h fits
  have bounds (i : Int) (low : -(2 ^ 63) ≤ i) (high : i < 2 ^ 64) : (int i).WellFormed := ⟨low, high⟩
  split at h
  · split at h
    · cases h
      exact bounds _ (by omega) (by omega)
    · split at h
      · cases h
        exact bounds _ (by omega) (by omega)
      · exact wellFormed_floatOf h
  · exact wellFormed_floatOf h

end JsonNumber

namespace Json

/-! ## Tokens -/

namespace Token

/-- Whether a number in the token fits. -/
def WellFormed : Token → Prop
  | number n => n.WellFormed
  | _ => True

/-- Whether the token is a whole value. -/
def isScalar : Token → Bool
  | null | bool _ | number _ | string _ => true
  | _ => false

variable {done closed : List Token} {seen : List Char} {c : Char}

theorem closeWord_cases (h : closeWord done seen = .ok closed) :
    ∃ t, closed = t :: done ∧ t.isScalar = true ∧ t.WellFormed := by
  unfold closeWord at h
  dsimp only at h
  split at h
  · rename_i t word
    cases h
    unfold ofWord? at word
    split at word <;> cases word <;> exact ⟨_, rfl, rfl, trivial⟩
  · cases h

theorem closeNumeral_cases (h : closeNumeral done seen = .ok closed) :
    ∃ t, closed = t :: done ∧ t.isScalar = true ∧ t.WellFormed := by
  unfold closeNumeral at h
  split at h
  · rename_i n number
    cases h
    exact ⟨_, rfl, rfl, JsonNumber.wellFormed_ofText number⟩
  · cases h

/-- Between tokens, a character is blank, is a mark of its own or begins a longer token. -/
theorem startStep_cases {s : Scanner} (h : startStep done c = .ok s) :
    (isBlank c = true ∧ s = ⟨.between, done⟩) ∨
      (∃ t, s = ⟨.between, t :: done⟩ ∧ t.WellFormed ∧ (t = .beginObject → c = '{')) ∨
      s.tokens = done ∧ s.mode ≠ .between := by
  unfold startStep at h
  dsimp only at h
  repeat' split at h
  all_goals cases h
  all_goals first
    | exact .inl ⟨‹_›, rfl⟩
    | exact .inr (.inl ⟨_, rfl, trivial, fun same => by first | assumption | cases same⟩)
    | exact .inr (.inr ⟨rfl, by rintro ⟨⟩⟩)

/-- Whether these are the tokens of a scanner once the token in hand, if there is one, is
complete. -/
def Scanner.Completed (s : Scanner) (closed : List Token) : Prop :=
  s.mode = .between ∧ closed = s.tokens ∨
    ∃ t, closed = t :: s.tokens ∧ t.isScalar = true ∧ t.WellFormed

theorem startStep_adds {s : Scanner} (h : startStep done c = .ok s) :
    s.tokens = done ∨ ∃ t, s.tokens = t :: done ∧ t.WellFormed := by
  rcases startStep_cases h with ⟨-, rfl⟩ | ⟨t, rfl, wf, -⟩ | ⟨same, -⟩
  · exact .inl rfl
  · exact .inr ⟨t, rfl, wf⟩
  · exact .inl same

theorem afterUnit_ne_between {lead : Option Nat} {u : Nat} {mode : Mode}
    (h : afterUnit seen lead u = .ok mode) : mode ≠ .between := by
  unfold afterUnit at h
  repeat' split at h
  all_goals cases h
  all_goals rintro ⟨⟩

/-- A step goes on with the token in hand, or it completes this token, if there is one, and may
add a mark. -/
theorem Scanner.step_cases {s s' : Scanner} (h : s.step c = .ok s') :
    (s.mode ≠ .between ∧ s'.mode ≠ .between ∧ s'.tokens = s.tokens) ∨
    ∃ closed, s.Completed closed ∧
      (s'.tokens = closed ∨ ∃ t, s'.tokens = t :: closed ∧ t.WellFormed) := by
  obtain ⟨mode, done⟩ := s
  unfold Scanner.step at h
  cases mode with
  | between => exact .inr ⟨done, .inl ⟨rfl, rfl⟩, startStep_adds h⟩
  | word seen =>
    dsimp only at h
    split at h
    · cases h
      exact .inl ⟨by rintro ⟨⟩, by rintro ⟨⟩, rfl⟩
    · obtain ⟨closed, closes, h⟩ := exists_of_bind_eq_ok h
      exact .inr ⟨closed, .inr (closeWord_cases closes), startStep_adds h⟩
  | numeral seen =>
    dsimp only at h
    split at h
    · cases h
      exact .inl ⟨by rintro ⟨⟩, by rintro ⟨⟩, rfl⟩
    · obtain ⟨closed, closes, h⟩ := exists_of_bind_eq_ok h
      exact .inr ⟨closed, .inr (closeNumeral_cases closes), startStep_adds h⟩
  | text seen =>
    dsimp only at h
    split at h
    · cases h
      exact .inr ⟨_, .inr ⟨.string _, rfl, rfl, trivial⟩, .inl rfl⟩
    · repeat' split at h
      all_goals cases h
      all_goals exact .inl ⟨by rintro ⟨⟩, by rintro ⟨⟩, rfl⟩
  | escape seen =>
    dsimp only at h
    repeat' split at h
    all_goals cases h
    all_goals exact .inl ⟨by rintro ⟨⟩, by rintro ⟨⟩, rfl⟩
  | unit seen lead count value =>
    dsimp only at h
    split at h
    · cases h
    · split at h
      · cases h
        exact .inl ⟨by rintro ⟨⟩, by rintro ⟨⟩, rfl⟩
      · obtain ⟨mode, after, h⟩ := exists_of_bind_eq_ok h
        cases h
        exact .inl ⟨by rintro ⟨⟩, afterUnit_ne_between after, rfl⟩
  | pairBackslash seen lead =>
    dsimp only at h
    split at h <;> cases h
    exact .inl ⟨by rintro ⟨⟩, by rintro ⟨⟩, rfl⟩
  | pairMark seen lead =>
    dsimp only at h
    split at h <;> cases h
    exact .inl ⟨by rintro ⟨⟩, by rintro ⟨⟩, rfl⟩

theorem Scanner.finish_cases {s : Scanner} {ts : List Token} (h : s.finish = .ok ts) :
    ∃ closed, s.Completed closed ∧ ts = closed.reverse := by
  obtain ⟨mode, done⟩ := s
  unfold Scanner.finish at h
  cases mode with
  | between =>
    cases h
    exact ⟨done, .inl ⟨rfl, rfl⟩, rfl⟩
  | word seen =>
    obtain ⟨closed, closes, rfl⟩ := exists_of_map_eq_ok h
    exact ⟨closed, .inr (closeWord_cases closes), rfl⟩
  | numeral seen =>
    obtain ⟨closed, closes, rfl⟩ := exists_of_map_eq_ok h
    exact ⟨closed, .inr (closeNumeral_cases closes), rfl⟩
  | _ => cases h

theorem wellFormed_completed {s : Scanner} {closed : List Token}
    (good : ∀ t ∈ s.tokens, t.WellFormed) (completed : s.Completed closed) :
    ∀ t ∈ closed, t.WellFormed := by
  rcases completed with ⟨-, rfl⟩ | ⟨t, rfl, -, wf⟩
  · exact good
  · exact List.forall_mem_cons.2 ⟨wf, good⟩

theorem wellFormed_step {s s' : Scanner} (good : ∀ t ∈ s.tokens, t.WellFormed)
    (stepped : s.step c = .ok s') : ∀ t ∈ s'.tokens, t.WellFormed := by
  rcases Scanner.step_cases stepped with ⟨-, -, same⟩ | ⟨closed, completed, same | ⟨t, same, wf⟩⟩
  · rw [same]
    exact good
  · rw [same]
    exact wellFormed_completed good completed
  · rw [same]
    exact List.forall_mem_cons.2 ⟨wf, wellFormed_completed good completed⟩

/-- Every number among the tokens of a text fits. -/
theorem wellFormed_of_scan {cs : List Char} {ts : List Token} (h : scan cs = .ok ts) :
    ∀ t ∈ ts, t.WellFormed := by
  obtain ⟨s, last, finished⟩ := exists_of_bind_eq_ok h
  obtain ⟨closed, completed, rfl⟩ := Scanner.finish_cases finished
  have good : ∀ t ∈ s.tokens, t.WellFormed :=
    foldlM_keeps (I := fun s : Scanner => ∀ t ∈ s.tokens, t.WellFormed) (P := fun _ => True)
      (fun good _ stepped => wellFormed_step good stepped) (List.forall_mem_nil _)
      (fun _ _ => trivial) last
  exact fun t ht => wellFormed_completed good completed t (List.mem_reverse.1 ht)

/-! ### Where an object begins -/

/-- What is scanned from a text that does not begin with an object: its first token is still
to be completed, or it is complete and does not open an object. -/
def Scanner.OpensOther (s : Scanner) : Prop :=
  s.tokens = [] ∧ s.mode ≠ .between ∨ ∃ t, s.tokens.getLast? = some t ∧ t ≠ .beginObject

theorem opensOther_startStep {s : Scanner} (blank : isBlank c = false) (other : c ≠ '{')
    (h : startStep [] c = .ok s) : s.OpensOther := by
  rcases startStep_cases h with ⟨skipped, -⟩ | ⟨t, rfl, -, opens⟩ | inside
  · cases blank.symm.trans skipped
  · exact .inr ⟨t, rfl, fun same => other (opens same)⟩
  · exact .inl inside

theorem OpensOther.completed {s : Scanner} {closed : List Token} (h : s.OpensOther)
    (completed : s.Completed closed) :
    ∃ t, closed.getLast? = some t ∧ t ≠ .beginObject := by
  rcases completed with ⟨between, rfl⟩ | ⟨t, rfl, scalar, -⟩
  · rcases h with ⟨-, inside⟩ | opens
    · exact absurd between inside
    · exact opens
  · rcases h with ⟨none, -⟩ | ⟨u, last, other⟩
    · rw [none]
      exact ⟨t, rfl, by rintro rfl; cases scalar⟩
    · exact ⟨u, by rw [List.getLast?_cons, last]; rfl, other⟩

theorem OpensOther.step {s s' : Scanner} (h : s.OpensOther) (stepped : s.step c = .ok s') :
    s'.OpensOther := by
  rcases Scanner.step_cases stepped with ⟨-, inside, same⟩ | ⟨closed, completed, added⟩
  · rw [Scanner.OpensOther, same]
    exact h.imp (fun none => ⟨none.1, inside⟩) id
  · obtain ⟨t, last, other⟩ := OpensOther.completed h completed
    rcases added with same | ⟨u, same, -⟩
    · exact .inr ⟨t, by rw [same, last], other⟩
    · exact .inr ⟨t, by rw [same, List.getLast?_cons, last]; rfl, other⟩

/-- A text whose first token opens an object has nothing but blanks before the brace. -/
theorem exists_blanks_of_scan {cs : List Char} {ts : List Token}
    (h : scan cs = .ok (.beginObject :: ts)) :
    ∃ blanks rest, cs = blanks ++ '{' :: rest ∧ ∀ c ∈ blanks, isBlank c = true := by
  induction cs with
  | nil => cases h
  | cons c rest ih =>
    by_cases opens : c = '{'
    · exact ⟨[], rest, by rw [opens]; rfl, List.forall_mem_nil _⟩
    cases blank : isBlank c with
    | true =>
      have skipped : startStep [] c = .ok ⟨.between, []⟩ := by
        unfold startStep
        exact if_pos blank
      rw [scan, List.foldlM_cons] at h
      obtain ⟨blanks, rest, same, all⟩ := ih (by
        rw [scan]
        change (startStep [] c >>= fun s => rest.foldlM Scanner.step s) >>= _ = _ at h
        rw [skipped] at h
        exact h)
      exact ⟨c :: blanks, rest, by rw [same]; rfl, List.forall_mem_cons.2 ⟨blank, all⟩⟩
    | false =>
      rw [scan, List.foldlM_cons] at h
      obtain ⟨s', scanned, finished⟩ := exists_of_bind_eq_ok h
      obtain ⟨s, stepped, last⟩ := exists_of_bind_eq_ok scanned
      obtain ⟨closed, completed, reversed⟩ := Scanner.finish_cases finished
      have opensOther : s'.OpensOther :=
        foldlM_keeps (P := fun _ => True) (fun h _ stepped => OpensOther.step h stepped)
          (opensOther_startStep blank opens stepped) (fun _ _ => trivial) last
      obtain ⟨t, last, other⟩ := OpensOther.completed opensOther completed
      rw [← List.head?_reverse, ← reversed] at last
      cases last
      exact absurd rfl other

end Token

/-! ## Values -/

namespace Reader

/-- Whether a value may stand inside so many containers. -/
def Fits (open' : Nat) (v : Json) : Prop := v.WellFormed ∧ open' + v.depth ≤ depthLimit

/-- Whether members may stand in an object that is the last of so many containers. -/
def FitMembers (open' : Nat) (ms : List (String × Json)) : Prop :=
  (Assoc.keys ms).Nodup ∧ ∀ m ∈ ms, Fits open' m.2

/-- Whether everything in the open containers, the innermost first, fits its place. -/
def FitFrames : List Frame → Prop
  | [] => True
  | .array items :: rest => (∀ v ∈ items, Fits (rest.length + 1) v) ∧ FitFrames rest
  | .object members _ :: rest => FitMembers (rest.length + 1) members ∧ FitFrames rest

/-- Whether what is known of the next value fits a place inside so many containers. -/
def FitExpect (open' : Nat) : Expect → Prop
  | .key ms _ | .colon ms _ => open' < depthLimit ∧ FitMembers (open' + 1) ms
  | .nothing v => Fits 0 v
  | _ => True

structure State.Good (s : State) : Prop where
  room : s.frames.length ≤ depthLimit
  frames : FitFrames s.frames
  expect : FitExpect s.frames.length s.expect

theorem depthItems_le {n : Nat} {vs : List Json} :
    depthItems vs ≤ n ↔ ∀ v ∈ vs, v.depth ≤ n := by
  induction vs with
  | nil => simp [depthItems]
  | cons v rest ih => rw [depthItems, Nat.max_le, ih, List.forall_mem_cons]

theorem depthMembers_le {n : Nat} {ms : List (String × Json)} :
    depthMembers ms ≤ n ↔ ∀ m ∈ ms, m.2.depth ≤ n := by
  induction ms with
  | nil => simp [depthMembers]
  | cons m rest ih =>
    obtain ⟨k, v⟩ := m
    rw [depthMembers, Nat.max_le, ih, List.forall_mem_cons]

theorem fits_array {n : Nat} {items : List Json} (room : n + 1 ≤ depthLimit)
    (h : ∀ v ∈ items, Fits (n + 1) v) : Fits n (.array items.reverse) := by
  refine ⟨wellFormed_array_iff.2 fun v hv => (h v (List.mem_reverse.1 hv)).1, ?_⟩
  have deep : depthItems items.reverse ≤ depthLimit - (n + 1) := depthItems_le.2 fun v hv => by
    have := (h v (List.mem_reverse.1 hv)).2
    omega
  rw [depth]
  omega

theorem fits_object {n : Nat} {ms : List (String × Json)} (room : n + 1 ≤ depthLimit)
    (h : FitMembers (n + 1) ms) : Fits n (.object ms) := by
  refine ⟨wellFormed_object_iff.2 ⟨h.1, fun m hm => (h.2 m hm).1⟩, ?_⟩
  have deep : depthMembers ms ≤ depthLimit - (n + 1) := depthMembers_le.2 fun m hm => by
    have := (h.2 m hm).2
    omega
  rw [depth]
  omega

theorem FitMembers.set {n : Nat} {ms : List (String × Json)} (h : FitMembers n ms) (key : String)
    {v : Json} (hv : Fits n v) : FitMembers n (Assoc.set key v ms) := by
  refine ⟨Assoc.nodup_keys_set key v h.1, fun m hm => ?_⟩
  rcases Assoc.mem_set hm with rfl | hm
  · exact hv
  · exact h.2 m hm

/-- A value that fits is put in the innermost container, or it is the whole text. -/
theorem good_accept {frames : List Frame} {v : Json} (room : frames.length ≤ depthLimit)
    (fit : FitFrames frames) (h : Fits frames.length v) : (accept frames v).Good := by
  cases frames with
  | nil => exact ⟨room, trivial, h⟩
  | cons f rest =>
    cases f with
    | array items => exact ⟨room, ⟨List.forall_mem_cons.2 ⟨h, fit.1⟩, fit.2⟩, trivial⟩
    | object members key => exact ⟨room, ⟨fit.1.set key h, fit.2⟩, trivial⟩

theorem good_beginValue {frames : List Frame} {t : Token} {s : State} (wf : t.WellFormed)
    (room : frames.length ≤ depthLimit) (fit : FitFrames frames)
    (h : beginValue frames t = .ok s) : s.Good := by
  cases t with
  | null | bool | string =>
    cases h
    exact good_accept room fit ⟨trivial, room⟩
  | number n =>
    cases h
    exact good_accept room fit ⟨wf, room⟩
  | beginArray =>
    change (if frames.length < depthLimit then _ else _) = _ at h
    split at h <;> cases h
    exact ⟨‹_›, ⟨List.forall_mem_nil _, fit⟩, trivial⟩
  | beginObject =>
    change (if frames.length < depthLimit then _ else _) = _ at h
    split at h <;> cases h
    exact ⟨room, fit, ‹_›, List.nodup_nil, List.forall_mem_nil _⟩
  | endArray | endObject | comma | colon => cases h

/-- Each token keeps what fits. -/
theorem State.Good.step {s s' : State} {t : Token} (good : s.Good) (wf : t.WellFormed)
    (h : s.step t = .ok s') : s'.Good := by
  obtain ⟨frames, expect⟩ := s
  obtain ⟨room, fit, expected⟩ := good
  unfold State.step at h
  dsimp only at h
  split at h
  · exact good_beginValue wf room fit h
  · -- The end of an array that may be empty.
    split at h <;> cases h
    exact good_accept (Nat.le_of_succ_le room) fit.2 (fits_array room fit.1)
  · exact good_beginValue wf room fit h
  · split at h <;> cases h
    · exact ⟨room, fit, trivial⟩
    · exact ⟨Nat.le_of_succ_le room, fit.2, room, fit.1⟩
  · split at h <;> cases h
    exact good_accept (Nat.le_of_succ_le room) fit.2 (fits_array room fit.1)
  · split at h <;> cases h
    exact good_accept (Nat.le_of_succ_le room) fit.2 (fits_object room fit.1)
  · cases h
    exact ⟨room, fit, expected⟩
  · cases h
    exact good_accept room fit (fits_object expected.1 expected.2)
  · cases h
    exact ⟨expected.1, ⟨expected.2, fit⟩, trivial⟩
  · cases h

/-! ### Where an object begins -/

/-- Whether the outermost of the open containers is an array. -/
def InArray : List Frame → Prop
  | [] => False
  | [.array _] => True
  | [.object _ _] => False
  | _ :: f :: rest => InArray (f :: rest)

/-- Whether what is being read is no object: it is in an array, or it is complete. -/
def State.ReadsOther (s : State) : Prop :=
  InArray s.frames ∧ (∀ v, s.expect ≠ .nothing v) ∨
    s.frames = [] ∧ ∃ v, s.expect = .nothing v ∧ v.asObject? = none

theorem InArray.cons {frames : List Frame} (h : InArray frames) (f : Frame) :
    InArray (f :: frames) := by
  cases frames with
  | nil => exact h.elim
  | cons g rest => cases f <;> exact h

theorem InArray.accept {frames : List Frame} (h : InArray frames) (v : Json) :
    (accept frames v).ReadsOther := by
  cases frames with
  | nil => exact h.elim
  | cons f rest =>
    refine .inl ?_
    cases f <;> cases rest <;> exact ⟨h, by rintro _ ⟨⟩⟩

/-- The outermost container may end only if it is an array, and then this is the value. -/
theorem InArray.closeArray {items : List Json} {rest : List Frame}
    (h : InArray (.array items :: rest)) (vs : List Json) :
    (Reader.accept rest (.array vs)).ReadsOther := by
  cases rest with
  | nil => exact .inr ⟨rfl, _, rfl, rfl⟩
  | cons f rest =>
    have inside : InArray (f :: rest) := h
    exact inside.accept _

theorem InArray.closeObject {ms : List (String × Json)} {k : String} {rest : List Frame}
    (h : InArray (.object ms k :: rest)) : InArray rest := by
  cases rest with
  | nil => exact h.elim
  | cons f rest => exact h

theorem InArray.beginValue {frames : List Frame} (h : InArray frames) {t : Token} {s : State}
    (begun : beginValue frames t = .ok s) : s.ReadsOther := by
  cases t with
  | null | bool | string | number =>
    cases begun
    exact h.accept _
  | beginArray =>
    change (if frames.length < depthLimit then _ else _) = _ at begun
    split at begun <;> cases begun
    exact .inl ⟨h.cons _, by rintro _ ⟨⟩⟩
  | beginObject =>
    change (if frames.length < depthLimit then _ else _) = _ at begun
    split at begun <;> cases begun
    exact .inl ⟨h, by rintro _ ⟨⟩⟩
  | endArray | endObject | comma | colon => cases begun

theorem State.ReadsOther.step {s s' : State} {t : Token} (h : s.ReadsOther)
    (stepped : s.step t = .ok s') : s'.ReadsOther := by
  obtain ⟨frames, expect⟩ := s
  cases h with
  | inr complete =>
    obtain ⟨-, v, rfl, -⟩ := complete
    cases t <;> cases stepped
  | inl inside =>
    obtain ⟨inside, -⟩ := inside
    unfold State.step at stepped
    dsimp only at stepped inside
    split at stepped
    · exact inside.beginValue stepped
    · split at stepped <;> cases stepped
      exact inside.closeArray _
    · exact inside.beginValue stepped
    · split at stepped <;> cases stepped
      · exact .inl ⟨inside, by rintro _ ⟨⟩⟩
      · exact .inl ⟨inside.closeObject, by rintro _ ⟨⟩⟩
    · split at stepped <;> cases stepped
      exact inside.closeArray _
    · split at stepped <;> cases stepped
      exact inside.closeObject.accept _
    · cases stepped
      exact .inl ⟨inside, by rintro _ ⟨⟩⟩
    · cases stepped
      exact inside.accept _
    · cases stepped
      exact .inl ⟨inside.cons _, by rintro _ ⟨⟩⟩
    · cases stepped

/-- The first token opens an object, or what is read is none. -/
theorem readsOther_of_first {t : Token} {s : State} (other : t ≠ .beginObject)
    (stepped : State.step ⟨[], .value⟩ t = .ok s) : s.ReadsOther := by
  change beginValue [] t = .ok s at stepped
  cases t with
  | null | bool | string | number =>
    cases stepped
    exact .inr ⟨rfl, _, rfl, rfl⟩
  | beginArray =>
    cases stepped
    exact .inl ⟨trivial, by rintro _ ⟨⟩⟩
  | beginObject => exact absurd rfl other
  | endArray | endObject | comma | colon => cases stepped

/-- The value that tokens spell is what a last state holds. -/
theorem ofTokens_eq_ok {ts : List Token} {v : Json} (h : ofTokens ts = .ok v) :
    ∃ s, ts.foldlM State.step ⟨[], .value⟩ = .ok s ∧ s.expect = .nothing v := by
  rw [ofTokens] at h
  obtain ⟨s, last, h⟩ := exists_of_bind_eq_ok h
  refine ⟨s, last, ?_⟩
  cases expects : s.expect with
  | nothing w =>
    rw [expects] at h
    cases h
    rfl
  | value | firstItem | separator | key | colon =>
    rw [expects] at h
    cases h

end Reader

open Reader

theorem parse_eq_ok {text : String} {v : Json} (h : parse text = .ok v) :
    ∃ ts, Token.scan text.toList = .ok ts ∧ ofTokens ts = .ok v :=
  exists_of_bind_eq_ok h

/-- What is read from any text is well-formed and not nested too deeply. -/
theorem fits_of_parse {text : String} {v : Json} (h : parse text = .ok v) :
    v.WellFormed ∧ v.depth ≤ depthLimit := by
  obtain ⟨ts, scanned, spelled⟩ := parse_eq_ok h
  obtain ⟨s, last, expects⟩ := ofTokens_eq_ok spelled
  have start : State.Good ⟨[], .value⟩ := ⟨Nat.zero_le _, trivial, trivial⟩
  have good : s.Good := foldlM_keeps (fun good wf stepped => State.Good.step good wf stepped)
    start (Token.wellFormed_of_scan scanned) last
  have fits := good.expect
  rw [expects] at fits
  exact ⟨fits.1, Nat.zero_add v.depth ▸ fits.2⟩

/-- A text that is read as an object begins with a brace, after blanks at most. -/
theorem exists_blanks_of_parse {text : String} {ms : List (String × Json)}
    (h : parse text = .ok (.object ms)) :
    ∃ blanks rest, text.toList = blanks ++ '{' :: rest ∧ ∀ c ∈ blanks, Token.isBlank c = true := by
  obtain ⟨ts, scanned, spelled⟩ := parse_eq_ok h
  obtain ⟨s, last, expects⟩ := ofTokens_eq_ok spelled
  cases ts with
  | nil =>
    cases last
    cases expects
  | cons t rest =>
    by_cases opens : t = .beginObject
    · subst opens
      exact Token.exists_blanks_of_scan scanned
    · rw [List.foldlM_cons] at last
      obtain ⟨s', first, last⟩ := exists_of_bind_eq_ok last
      have other : s.ReadsOther := foldlM_keeps (P := fun _ => True)
        (fun h _ stepped => State.ReadsOther.step h stepped) (readsOther_of_first opens first)
        (fun _ _ => trivial) last
      rcases other with ⟨-, open'⟩ | ⟨-, v, complete, none⟩
      · exact absurd expects (open' _)
      · rw [expects] at complete
        cases complete
        cases none

end Json

end Netlist
