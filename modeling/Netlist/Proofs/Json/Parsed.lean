-- The tokens of a value are read as this value if it is not nested too deeply, and so is
-- its text. If it is nested too deeply, this is the error.
import Netlist.Json.Reader
import Netlist.Proofs.Json.Tokens

namespace Netlist.Json

namespace Reader

/-- What reading ends in when it leads to a state and the containers are `depth` deep. -/
def unlessTooDeep (depth : Nat) (s : State) : Except TextError State :=
  if depth ≤ depthLimit then .ok s else .error .tooDeep

/-- Of two parts of a text, the deeper one counts. -/
theorem unlessTooDeep_bind {depth depth' deepest : Nat} {s s' : State}
    {f : State → Except TextError State} (h : f s = unlessTooDeep depth' s')
    (deep : max depth depth' = deepest) :
    (unlessTooDeep depth s >>= f) = unlessTooDeep deepest s' := by
  subst deep
  unfold unlessTooDeep at h ⊢
  by_cases fits : depth ≤ depthLimit
  · rw [if_pos fits]
    refine h.trans ?_
    by_cases fits' : depth' ≤ depthLimit
    · rw [if_pos fits', if_pos (Nat.max_le.2 ⟨fits, fits'⟩)]
    · rw [if_neg fits', if_neg fun all => fits' (Nat.max_le.1 all).2]
  · rw [if_neg fits, if_neg fun all => fits (Nat.max_le.1 all).1]
    rfl

/-- A container is opened if there is room for it. -/
theorem read_begin {t : Token} {ts : List Token} {frames : List Frame} {opened s : State}
    {depth : Nat} (begins : State.step ⟨frames, .value⟩ t =
      if frames.length < depthLimit then .ok opened else .error .tooDeep)
    (reads : frames.length < depthLimit →
      ts.foldlM State.step opened = unlessTooDeep (frames.length + 1 + depth) s) :
    (t :: ts).foldlM State.step ⟨frames, .value⟩ =
      unlessTooDeep (frames.length + (depth + 1)) s := by
  rw [List.foldlM_cons, begins]
  split
  · rename_i room
    rw [Nat.add_comm depth, ← Nat.add_assoc]
    exact reads room
  · rename_i full
    rw [unlessTooDeep, if_neg (by omega)]
    rfl

/-- The first item of an array is read as every other one. -/
theorem read_firstItem (v : Json) (rest : List Json) (ts : List Token) (frames : List Frame) :
    (itemTokens (v :: rest) ++ ts).foldlM State.step ⟨frames, .firstItem⟩ =
      (itemTokens (v :: rest) ++ ts).foldlM State.step ⟨frames, .value⟩ := by
  cases rest <;> cases v <;> rfl

/-- A key that comes after others, each of which stands once, is none of them. -/
theorem fresh_of_nodup {done rest : List (String × Json)} {k : String} {v : Json}
    (h : (Assoc.keys (done ++ (k, v) :: rest)).Nodup) : k ∉ Assoc.keys done := by
  rw [Assoc.keys, List.map_append, List.map_cons] at h
  intro old
  exact (List.nodup_append.1 h).2.2 _ old _ List.mem_cons_self rfl

/-- A key and a colon come before the value of a member. -/
theorem read_key (k : String) (ts : List Token) (done : List (String × Json)) (first : Bool)
    (frames : List Frame) :
    (Token.string k :: .colon :: ts).foldlM State.step ⟨frames, .key done first⟩ =
      ts.foldlM State.step ⟨.object done k :: frames, .value⟩ := by
  cases first <;> rfl

mutual

theorem read_tokens : ∀ (v : Json) (frames : List Frame), v.WellFormed →
    frames.length ≤ depthLimit →
    v.tokens.foldlM State.step ⟨frames, .value⟩ =
      unlessTooDeep (frames.length + v.depth) (accept frames v)
  | null, _, _, room => (if_pos room).symm
  | bool _, _, _, room => (if_pos room).symm
  | number _, _, _, room => (if_pos room).symm
  | string _, _, _, room => (if_pos room).symm
  | array [], _, _, _ => read_begin rfl fun room => (if_pos room).symm
  | array (v :: rest), frames, wf, _ => read_begin rfl fun room => by
    rw [read_firstItem]
    exact read_itemTokens (v :: rest) [] frames wf (List.cons_ne_nil _ _) room
  | object [], _, _, _ => read_begin rfl fun room => (if_pos room).symm
  | object (m :: rest), frames, wf, _ => read_begin rfl fun room =>
    read_memberTokens (m :: rest) [] true frames wf.2 wf.1 (List.cons_ne_nil _ _) room

theorem read_itemTokens : ∀ (vs done : List Json) (frames : List Frame),
    WellFormedItems vs → vs ≠ [] → frames.length < depthLimit →
    (itemTokens vs ++ [Token.endArray]).foldlM State.step ⟨.array done :: frames, .value⟩ =
      unlessTooDeep (frames.length + 1 + depthItems vs)
        (accept frames (.array (done.reverse ++ vs)))
  | [], _, _, _, nonempty, _ => absurd rfl nonempty
  | [v], done, frames, wf, _, room => by
    have closes : [Token.endArray].foldlM State.step (accept (.array done :: frames) v) =
        unlessTooDeep (frames.length + 1) (accept frames (.array (done.reverse ++ [v]))) := by
      rw [unlessTooDeep, if_pos (Nat.succ_le_of_lt room), ← List.reverse_cons]
      rfl
    rw [itemTokens, List.foldlM_append, read_tokens v (.array done :: frames) wf.1 room]
    refine unlessTooDeep_bind closes ?_
    simp only [List.length_cons, depthItems]
    omega
  | v :: w :: rest, done, frames, wf, _, room => by
    have later := read_itemTokens (w :: rest) (v :: done) frames wf.2 (List.cons_ne_nil _ _) room
    rw [List.reverse_cons, List.append_assoc] at later
    have tokens : itemTokens (v :: w :: rest) = v.tokens ++ .comma :: itemTokens (w :: rest) := rfl
    rw [tokens, List.append_assoc, List.foldlM_append,
      read_tokens v (.array done :: frames) wf.1 room]
    refine unlessTooDeep_bind later ?_
    simp only [List.length_cons, depthItems]
    omega

theorem read_memberTokens : ∀ (ms done : List (String × Json)) (first : Bool)
    (frames : List Frame), WellFormedMembers ms → (Assoc.keys (done ++ ms)).Nodup → ms ≠ [] →
    frames.length < depthLimit →
    (memberTokens ms ++ [Token.endObject]).foldlM State.step ⟨frames, .key done first⟩ =
      unlessTooDeep (frames.length + 1 + depthMembers ms)
        (accept frames (.object (done ++ ms)))
  | [], _, _, _, _, _, nonempty, _ => absurd rfl nonempty
  | [(k, v)], done, first, frames, wf, nodup, _, room => by
    have new : k ∉ Assoc.keys done := fresh_of_nodup nodup
    have closes : [Token.endObject].foldlM State.step (accept (.object done k :: frames) v) =
        unlessTooDeep (frames.length + 1) (accept frames (.object (done ++ [(k, v)]))) := by
      rw [unlessTooDeep, if_pos (Nat.succ_le_of_lt room), ← Assoc.set_of_not_mem v new]
      rfl
    have tokens : memberTokens [(k, v)] ++ [Token.endObject] =
        .string k :: .colon :: (v.tokens ++ [Token.endObject]) := rfl
    rw [tokens, read_key, List.foldlM_append, read_tokens v (.object done k :: frames) wf.1 room]
    refine unlessTooDeep_bind closes ?_
    simp only [List.length_cons, depthMembers]
    omega
  | (k, v) :: m :: rest, done, first, frames, wf, nodup, _, room => by
    have new : k ∉ Assoc.keys done := fresh_of_nodup nodup
    have split : done ++ (k, v) :: m :: rest = Assoc.set k v done ++ m :: rest := by
      rw [Assoc.set_of_not_mem v new, List.append_assoc]
      rfl
    rw [split] at nodup ⊢
    have later := read_memberTokens (m :: rest) (Assoc.set k v done) false frames wf.2 nodup
      (List.cons_ne_nil _ _) room
    have tokens : memberTokens ((k, v) :: m :: rest) ++ [Token.endObject] =
        .string k :: .colon :: (v.tokens ++ .comma :: (memberTokens (m :: rest) ++
          [Token.endObject])) :=
      congrArg (Token.string k :: Token.colon :: ·) (List.append_assoc _ _ _)
    rw [tokens, read_key, List.foldlM_append, read_tokens v (.object done k :: frames) wf.1 room]
    refine unlessTooDeep_bind later ?_
    simp only [List.length_cons, depthMembers]
    omega

end

end Reader

/-- A value that is not nested too deeply is read from its tokens, and one that is nested too
deeply is refused for this. -/
theorem ofTokens_tokens {v : Json} (wf : v.WellFormed) : Reader.ofTokens v.tokens =
    if v.depth ≤ Reader.depthLimit then .ok v else .error .tooDeep := by
  rw [Reader.ofTokens, Reader.read_tokens v [] wf (Nat.zero_le _), List.length_nil, Nat.zero_add,
    Reader.unlessTooDeep]
  split <;> rfl

/-- So it is read from its text, with a line break after it. -/
theorem parse_documentText (indent : Nat) {v : Json} (wf : v.WellFormed)
    (free : v.floatFree = true) : parse (v.render indent ++ "\n") =
      if v.depth ≤ Reader.depthLimit then .ok v else .error .tooDeep := by
  rw [parse, String.toList_append]
  have scanned := Token.scan_newline (scan_render indent wf free)
  exact (congrArg (· >>= Reader.ofTokens) scanned).trans (ofTokens_tokens wf)

end Netlist.Json
