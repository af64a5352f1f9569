-- The links of a definition, told by the requests for them. A link is there from the first
-- request for its two terminals on. Later requests for them, in either direction, only bring
-- metadata. So the history of the requests decides every link, and nothing else does.
import Mathlib.Data.List.Induction
import Netlist.Proofs.InPlace
import Netlist.Proofs.Entries

namespace Netlist

/-! ## Entries that are set one after another -/

namespace Assoc

variable {κ α : Type} [DecidableEq κ]

/-- A key keeps its first position. -/
theorem keys_setAll (es : List (κ × α)) : keys (setAll [] es) = (keys es).eraseDups := by
  induction es using List.reverseRecOn with
  | nil => rfl
  | append_singleton es e ih =>
    have step : setAll [] (es ++ [e]) = set e.1 e.2 (setAll [] es) := List.foldl_concat ..
    have both : keys (es ++ [e]) = keys es ++ [e.1] := List.map_append
    rw [step, keys_set, ih, both, List.eraseDups_append]
    split
    · rename_i there
      rw [List.mem_eraseDups] at there
      simp [List.removeAll, there]
    · rename_i new
      rw [List.mem_eraseDups] at new
      simp [List.removeAll, new, List.eraseDups_cons]

/-- The last value of a key wins. -/
theorem get?_setAll_reverse (es more : List (κ × α)) (key : κ) :
    get? key (setAll es more) = (get? key more.reverse).or (get? key es) := by
  induction more generalizing es with
  | nil => rfl
  | cons e rest ih =>
    have step : setAll es (e :: rest) = setAll (set e.1 e.2 es) rest := rfl
    rw [step, ih, List.reverse_cons, get?_append, get?_set, Option.or_assoc, get?]
    split <;> rfl

theorem set_comm {k l : κ} (a b : α) {es : List (κ × α)} (other : l ≠ k) (there : k ∈ keys es) :
    set l b (set k a es) = set k a (set l b es) := by
  induction es with
  | nil => cases there
  | cons e rest ih =>
    obtain ⟨m, c⟩ := e
    by_cases hk : m = k
    · subst hk
      simp [set, Ne.symm other]
    · have later := (List.mem_cons.1 there).resolve_left (Ne.symm hk)
      by_cases hl : m = l
      · subst hl
        simp [set, hk]
      · simp [set, hk, hl, ih later]

/-- A key that is there may be set before the others. -/
theorem setAll_set_left {k : κ} (a : α) {es more : List (κ × α)} (there : k ∈ keys es)
    (other : k ∉ keys more) : setAll (set k a es) more = set k a (setAll es more) := by
  induction more generalizing es with
  | nil => rfl
  | cons e rest ih =>
    obtain ⟨hk, later⟩ := not_or.1 (List.mem_cons.not.1 other)
    have still : k ∈ keys (set e.1 e.2 es) := by
      rw [keys_set]
      split
      · exact there
      · exact List.mem_append_left _ there
    change setAll (set e.1 e.2 (set k a es)) rest = set k a (setAll (set e.1 e.2 es) rest)
    rw [set_comm a e.2 (Ne.symm hk) there, ih still later]

theorem setAll_set_right (k : κ) (a : α) (es : List (κ × α)) {more : List (κ × α)}
    (nodup : (keys more).Nodup) : setAll es (set k a more) = set k a (setAll es more) := by
  induction more generalizing es with
  | nil => rfl
  | cons e rest ih =>
    obtain ⟨l, b⟩ := e
    obtain ⟨new, nodup⟩ := List.nodup_cons.1 nodup
    rw [set]
    split
    · rename_i hk
      subst hk
      change setAll (set l a es) rest = set l a (setAll (set l b es) rest)
      have there : l ∈ keys (set l b es) :=
        isSome_get?_iff.1 (by rw [get?_set, if_pos rfl]; rfl)
      rw [← setAll_set_left a there new, set_set]
    · exact ih (set l b es) nodup

/-- To set entries that were set upon others is to set them after these. -/
theorem setAll_setAll (es : List (κ × α)) {more : List (κ × α)} (nodup : (keys more).Nodup)
    (last : List (κ × α)) : setAll (setAll es more) last = setAll es (setAll more last) := by
  induction last generalizing more with
  | nil => rfl
  | cons e rest ih =>
    change setAll (set e.1 e.2 (setAll es more)) rest = setAll es (setAll (set e.1 e.2 more) rest)
    rw [← ih (nodup_keys_set e.1 e.2 nodup), setAll_set_right e.1 e.2 es nodup]

end Assoc

namespace Metadata

/-- Merging is associative. -/
theorem extend_assoc (m : Metadata) {k : Metadata} (nodup : (Assoc.keys k.entries).Nodup)
    (l : Metadata) : (m.extend k).extend l = m.extend (k.extend l) :=
  congrArg Metadata.mk (Assoc.setAll_setAll m.entries nodup l.entries)

theorem entries_foldl_extend (ms : List Metadata) (m : Metadata) :
    (ms.foldl extend m).entries = Assoc.setAll m.entries (ms.flatMap (·.entries)) := by
  induction ms generalizing m with
  | nil => rfl
  | cons k rest ih =>
    rw [List.foldl_cons, ih, List.flatMap_cons, Assoc.setAll, Assoc.setAll, List.foldl_append]
    rfl

end Metadata

/-! ## Things of which only the first is kept -/

section

variable {α : Type} {same : α → α → Bool}
  (trans : ∀ a b c, same a b = true → same b c = true → same a c = true)

include trans

/-- What is not the same as `b` is looked for among things that are not so either. -/
theorem any_filter_other {a b : α} (other : same a b = false) (l : List α) :
    (l.filter fun c => decide (same c b = false)).any (same a) = l.any (same a) := by
  have kept : ∀ c, (decide (same c b = false) && same a c) = same a c := fun c => by
    cases hc : same a c with
    | false => exact Bool.and_false _
    | true =>
      have apart : same c b = false := Bool.eq_false_iff.2 fun h => by
        rw [trans a c b hc h] at other
        cases other
      simp [apart]
  rw [List.any_filter]
  simp only [kept]

theorem any_eraseDupsBy (a : α) (l : List α) :
    (l.eraseDupsBy same).any (same a) = l.any (same a) := by
  match l with
  | [] => rfl
  | b :: rest =>
    rw [List.eraseDupsBy_cons, List.any_cons, List.any_cons, any_eraseDupsBy a]
    cases other : same a b with
    | true => rfl
    | false => rw [any_filter_other trans other]
termination_by l.length
decreasing_by exact Nat.lt_succ_of_le (List.length_filter_le ..)

/-- One more thing is kept unless one before it is the same. -/
theorem eraseDupsBy_concat (l : List α) (a : α) : (l ++ [a]).eraseDupsBy same =
    if l.any (same a) then l.eraseDupsBy same else l.eraseDupsBy same ++ [a] := by
  match l with
  | [] => rfl
  | b :: rest =>
    rw [List.cons_append, List.eraseDupsBy_cons, List.eraseDupsBy_cons, List.filter_append,
      List.any_cons]
    cases other : same a b with
    | true => simp [other]
    | false =>
      have last : [a].filter (fun c => decide (same c b = false)) = [a] := by simp [other]
      rw [last, eraseDupsBy_concat _ a, any_filter_other trans other, Bool.false_or]
      split <;> rfl
termination_by l.length
decreasing_by exact Nat.lt_succ_of_le (List.length_filter_le ..)

end

/-- Where at most one thing is sought, the change of the first one is the change of each. -/
theorem updateFirst_eq_map {α : Type} {sought : α → Bool} {f : α → α} {new : α} {l : List α}
    (one : l.Pairwise fun a b => sought a = true → sought b = false)
    (there : ∃ a ∈ l, sought a = true) :
    updateFirst sought f new l = l.map fun a => if sought a then f a else a := by
  induction one with
  | nil => simp at there
  | @cons a rest first _ ih =>
    rw [updateFirst, List.map_cons]
    cases ha : sought a with
    | true =>
      have others : rest.map (fun b => if sought b then f b else b) = rest :=
        (List.map_congr_left fun b hb => by simp [first b hb ha]).trans (List.map_id _)
      rw [others]
      rfl
    | false =>
      obtain ⟨b, hb, hs⟩ := there
      rcases List.mem_cons.1 hb with rfl | hb
      · rw [ha] at hs
        cases hs
      · rw [ih ⟨b, hb, hs⟩]
        rfl

namespace Definition

/-! ## Pairs of terminals -/

section

variable {α : Type} [DecidableEq α]

theorem sameEnds_iff {e f : α × α} : sameEnds e f = true ↔ e = f ∨ e = f.swap := by
  obtain ⟨a, b⟩ := e
  obtain ⟨c, d⟩ := f
  simp [sameEnds]

theorem sameEnds_comm (e f : α × α) : sameEnds e f = sameEnds f e := by
  rw [Bool.eq_iff_iff, sameEnds_iff, sameEnds_iff]
  refine or_congr eq_comm ⟨fun h => ?_, fun h => ?_⟩ <;> rw [h, Prod.swap_swap]

theorem sameEnds_swap (e f : α × α) : sameEnds e f.swap = sameEnds e f := by
  rw [Bool.eq_iff_iff, sameEnds_iff, sameEnds_iff, Prod.swap_swap, or_comm]

theorem sameEnds_trans (e f g : α × α) (h : sameEnds e f = true) (k : sameEnds f g = true) :
    sameEnds e g = true := by
  rw [sameEnds_iff] at *
  rcases h with rfl | rfl <;> rcases k with rfl | rfl <;> simp

end

theorem links_eq (c : Connection) (a b : WirePath) : c.links a b = sameEnds (ends c) (a, b) := rfl

/-- A link stays where it is, and a new one comes last. -/
theorem map_ends_linked (connections : Array Connection) (a b : WirePath) (metadata : Metadata) :
    (linked connections a b metadata).1.toList.map ends =
      if connections.toList.any (·.links a b) then connections.toList.map ends
      else connections.toList.map ends ++ [(a, b)] := by
  have same : ∀ c : Connection, ends { c with metadata := c.metadata.extend metadata } = ends c :=
    fun _ => rfl
  rw [toList_linked]
  split
  · rename_i there
    exact map_updateFirst same (List.any_eq_true.1 there)
  · rename_i new
    have fresh : ∀ c ∈ connections.toList, c.links a b = false := fun c hc =>
      Bool.eq_false_iff.2 fun links => new (List.any_eq_true.2 ⟨c, hc, links⟩)
    rw [updateFirst_of_none fresh, List.map_append]
    rfl

end Definition

open Definition Design Edit

/-! ## Requests for links -/

/-- A request for a link between two terminals, and metadata for it if it comes with any. -/
structure LinkRequest where
  first : WirePath
  second : WirePath
  metadata : Option Metadata

namespace LinkRequest

variable {d : Design} {x : Definition}

/-- What a request does in place. It gives the position of the link. -/
def perform (r : LinkRequest) : Building Nat :=
  match r.metadata with
  | none => Building.connect r.first r.second
  | some metadata => Building.connectWithMetadata r.first r.second metadata

def ends (r : LinkRequest) : WirePath × WirePath := (r.first, r.second)

/-- The metadata that a request brings. -/
def brings (r : LinkRequest) : Metadata := r.metadata.getD ∅

/-- The same request, made from the other terminal. -/
def swap (r : LinkRequest) : LinkRequest := { r with first := r.second, second := r.first }

/-- Whether both terminals begin at something that is there. -/
def Valid (d : Design) (x : Definition) (r : LinkRequest) : Prop :=
  x.Begins d r.first ∧ x.Begins d r.second

theorem perform_eq (r : LinkRequest) :
    r.perform = Building.connectWithMetadata r.first r.second r.brings := by
  obtain ⟨a, b, metadata⟩ := r
  cases metadata with
  | none => exact Building.connect_eq a b
  | some metadata => rfl

end LinkRequest

/-- The request that a link stands for. -/
def Connection.request (c : Connection) : LinkRequest := ⟨c.first, c.second, some c.metadata⟩

/-! ## Links that follow from requests -/

/-- The metadata that was brought to a link, from either side, in the order of the requests. -/
def broughtTo (c : Connection) (history : List LinkRequest) : List Metadata :=
  (history.filter fun r => c.links r.first r.second).map LinkRequest.brings

/-- Links are as requests made them. There is one for each pair of terminals, in the order of
the first requests for them, and it keeps the order of the two. Its metadata is all that was
brought to it, merged in the order of the requests: a key keeps its first position, and has the
last of its values. -/
structure FollowFrom (history : List LinkRequest) (links : List Connection) : Prop where
  ends : links.map ends = (history.map LinkRequest.ends).eraseDupsBy sameEnds
  merged : ∀ c ∈ links, c.metadata = (broughtTo c history).foldl Metadata.extend ∅
  keys : ∀ c ∈ links, Assoc.keys c.metadata.entries =
    (Assoc.keys ((broughtTo c history).flatMap (·.entries))).eraseDups
  values : ∀ c ∈ links, ∀ key, c.metadata.get? key =
    Assoc.get? key ((broughtTo c history).flatMap (·.entries)).reverse

section

variable {history : List LinkRequest} {links : List Connection} {c : Connection} {a b : WirePath}

theorem followFrom_of_merged
    (ends : links.map ends = (history.map LinkRequest.ends).eraseDupsBy sameEnds)
    (merged : ∀ c ∈ links, c.metadata = (broughtTo c history).foldl Metadata.extend ∅) :
    FollowFrom history links := by
  have entries : ∀ c ∈ links, c.metadata.entries =
      Assoc.setAll [] ((broughtTo c history).flatMap (·.entries)) := fun c hc => by
    rw [merged c hc, Metadata.entries_foldl_extend]
    rfl
  refine ⟨ends, merged, fun c hc => ?_, fun c hc key => ?_⟩
  · rw [entries c hc, Assoc.keys_setAll]
  · rw [Metadata.get?, entries c hc, Assoc.get?_setAll_reverse, Assoc.get?_nil, Option.or_none]

theorem broughtTo_concat (c : Connection) (history : List LinkRequest) (r : LinkRequest) :
    broughtTo c (history ++ [r]) =
      if c.links r.first r.second then broughtTo c history ++ [r.brings]
      else broughtTo c history := by
  unfold broughtTo
  cases hr : c.links r.first r.second <;> simp [hr]

/-- There is a link if it was requested, in either direction. -/
theorem FollowFrom.any_links (h : FollowFrom history links) (r : LinkRequest) :
    links.any (·.links r.first r.second) = history.any fun q => sameEnds r.ends q.ends := by
  have same : (links.map Definition.ends).any (sameEnds r.ends) =
      (history.map LinkRequest.ends).any (sameEnds r.ends) := by
    rw [h.ends, any_eraseDupsBy sameEnds_trans]
  rw [List.any_map, List.any_map] at same
  rw [← Function.comp_def, ← same]
  exact congrArg links.any (funext fun c => (links_eq ..).trans (sameEnds_comm ..))

theorem one_link (h : Unlinked links) (a b : WirePath) :
    links.Pairwise fun c k => c.links a b = true → k.links a b = false := by
  refine h.imp fun {c k} apart hc => Bool.eq_false_iff.2 fun hk => ?_
  rw [links_eq] at hc hk
  rw [sameEnds_comm] at hk
  exact Bool.eq_false_iff.1 apart (sameEnds_trans _ _ _ hc hk)

/-- Links go on to follow from the requests when one more is made. -/
theorem FollowFrom.request {connections : Array Connection}
    (h : FollowFrom history connections.toList) (unlinked : Unlinked connections.toList)
    (r : LinkRequest) : FollowFrom (history ++ [r])
      (linked connections r.first r.second r.brings).1.toList := by
  have last : (history ++ [r]).map LinkRequest.ends = history.map LinkRequest.ends ++ [r.ends] :=
    List.map_append
  -- a link that the request is not for is brought nothing
  have other : ∀ c ∈ connections.toList, c.links r.first r.second = false →
      c.metadata = (broughtTo c (history ++ [r])).foldl Metadata.extend ∅ := fun c hc apart => by
    rw [broughtTo_concat, apart, if_neg Bool.false_ne_true]
    exact h.merged c hc
  refine followFrom_of_merged ?_ ?_
  · rw [map_ends_linked, last, eraseDupsBy_concat sameEnds_trans, h.any_links r, h.ends,
      List.any_map]
    rfl
  rw [toList_linked]
  by_cases there : ∃ c ∈ connections.toList, c.links r.first r.second = true
  · rw [updateFirst_eq_map (one_link unlinked _ _) there, List.forall_mem_map]
    intro c hc
    cases links : c.links r.first r.second with
    | true =>
      have brought : broughtTo c (history ++ [r]) = broughtTo c history ++ [r.brings] := by
        rw [broughtTo_concat, links, if_pos rfl]
      change c.metadata.extend r.brings = (broughtTo c (history ++ [r])).foldl Metadata.extend ∅
      rw [brought, List.foldl_concat, ← h.merged c hc]
    | false => exact other c hc links
  · have fresh : ∀ c ∈ connections.toList, c.links r.first r.second = false := fun c hc =>
      Bool.eq_false_iff.2 fun links => there ⟨c, hc, links⟩
    rw [updateFirst_of_none fresh]
    intro c hc
    rcases List.mem_append.1 hc with hc | hc
    · exact other c hc (fresh c hc)
    · obtain rfl := List.mem_singleton.1 hc
      have none : history.filter (fun q => sameEnds r.ends q.ends) = [] := by
        have apart : connections.toList.any (·.links r.first r.second) = false :=
          Bool.eq_false_iff.2 fun links => there (List.any_eq_true.1 links)
        rw [h.any_links r] at apart
        exact List.filter_eq_nil_iff.2 (List.any_eq_false.1 apart)
      have brought : broughtTo ⟨r.first, r.second, Metadata.extend ∅ r.brings⟩ history = [] :=
        congrArg (List.map LinkRequest.brings) none
      have itself : Connection.links ⟨r.first, r.second, Metadata.extend ∅ r.brings⟩
          r.first r.second = true := (links_eq ..).trans (sameEnds_iff.2 (.inl rfl))
      rw [broughtTo_concat, itself, if_pos rfl, brought]
      rfl

/-- The links of a definition follow from the requests that they stand for. -/
theorem followFrom_requests (unlinked : Unlinked links)
    (metadata : ∀ c ∈ links, c.metadata.WellFormed) :
    FollowFrom (links.map Connection.request) links := by
  induction links using List.reverseRecOn with
  | nil => exact followFrom_of_merged rfl fun c hc => nomatch hc
  | append_singleton links c ih =>
    obtain ⟨before, -, fresh⟩ := List.pairwise_append.1 unlinked
    have old : FollowFrom (links.map Connection.request) links.toArray.toList :=
      ih before fun k hk => metadata k (List.mem_append_left _ hk)
    have new : ∀ k ∈ links.toArray.toList, k.links c.request.first c.request.second = false :=
      fun k hk => fresh k hk c (List.mem_singleton_self c)
    have one := old.request before c.request
    rw [toList_linked, updateFirst_of_none new] at one
    have same : Metadata.extend ∅ c.request.brings = c.metadata :=
      Metadata.extend_empty (metadata c (List.mem_append_right _ (List.mem_singleton_self c)))
    rw [same] at one
    rw [List.map_append]
    exact one

end

/-! ## Making requests -/

namespace LinkRequest

variable {d : Design} {x : Definition} {connections : Array Connection}

/-- Some requests, one after another, and the positions of their links. -/
def performAll (rs : List LinkRequest) : Building (List Nat) := rs.mapM perform

/-- Whether the link at a position is the one that was requested. -/
def At (connections : Array Connection) (r : LinkRequest) (i : Nat) : Prop :=
  ∃ c, connections[i]? = some c ∧ c.links r.first r.second = true

/-- Whether both terminals pass their checks. -/
def Checked (d : Design) (x : Definition) (r : LinkRequest) : Prop :=
  x.checkEnd d r.first = .ok () ∧ x.checkEnd d r.second = .ok ()

theorem perform_of_checked {r : LinkRequest} (checked : r.Checked d x) : r.perform (d, x) =
    .ok (linked x.connections r.first r.second r.brings).2
      (d, { x with connections := (linked x.connections r.first r.second r.brings).1 }) := by
  rw [perform_eq, Building.connectWithMetadata_of_ok checked.1 checked.2]

theorem at_linked (connections : Array Connection) (r : LinkRequest) :
    r.At (linked connections r.first r.second r.brings).1
      (linked connections r.first r.second r.brings).2 := by
  unfold linked
  cases found : connections.findIdx? (·.links r.first r.second) with
  | some i =>
    obtain ⟨there, links, -⟩ := Array.findIdx?_eq_some_iff_getElem.1 found
    refine ⟨{ connections[i] with metadata := connections[i].metadata.extend r.brings }, ?_, links⟩
    simp [there, Array.getElem_modify]
  | none =>
    exact ⟨_, Array.getElem?_push_size, (links_eq ..).trans (sameEnds_iff.2 (.inl rfl))⟩

/-- Links stay where they are. -/
theorem ends_linked (connections : Array Connection) (r : LinkRequest) :
    connections.toList.map Definition.ends <+:
      (linked connections r.first r.second r.brings).1.toList.map Definition.ends := by
  rw [map_ends_linked]
  split
  · exact List.prefix_rfl
  · exact List.prefix_append ..

theorem At.of_ends {more : Array Connection} {r : LinkRequest} {i : Nat}
    (h : r.At connections i) (ends : connections.toList.map Definition.ends <+:
      more.toList.map Definition.ends) : r.At more i := by
  obtain ⟨c, there, links⟩ := h
  obtain ⟨others, ends⟩ := ends
  have still : (more.toList.map Definition.ends)[i]? = some (Definition.ends c) := by
    have place : i < (connections.toList.map Definition.ends).length := by
      simpa using (Array.getElem?_eq_some_iff.1 there).1
    rw [← ends, List.getElem?_append_left place, List.getElem?_map, Array.getElem?_toList, there]
    rfl
  rw [List.getElem?_map, Option.map_eq_some_iff] at still
  obtain ⟨k, there', same⟩ := still
  refine ⟨k, by rwa [← Array.getElem?_toList], ?_⟩
  rw [links_eq, same]
  exact links

/-- Requests that pass their checks all succeed. Links that followed from a history follow from
it and the requests, and each request is given the position of its own link. -/
theorem performAll_of_checked {rs : List LinkRequest} (checked : ∀ r ∈ rs, r.Checked d x)
    {history : List LinkRequest} (follow : FollowFrom history connections.toList)
    (unlinked : Unlinked connections.toList) : ∃ slots more,
      performAll rs (d, { x with connections }) = .ok slots (d, { x with connections := more }) ∧
      FollowFrom (history ++ rs) more.toList ∧ Unlinked more.toList ∧
      connections.toList.map Definition.ends <+: more.toList.map Definition.ends ∧
      List.Forall₂ (At more) rs slots := by
  induction rs generalizing history connections with
  | nil =>
    rw [List.append_nil]
    exact ⟨[], connections, rfl, follow, unlinked, List.prefix_rfl, .nil⟩
  | cons r rest ih =>
    obtain ⟨first, later⟩ := List.forall_mem_cons.1 checked
    obtain ⟨slots, more, ran, follow', unlinked', ends, found⟩ :=
      ih later (follow.request unlinked r) (unlinked_linked unlinked r.first r.second r.brings)
    refine ⟨_, more, ?_, ?_, unlinked', (ends_linked connections r).trans ends,
      .cons ((at_linked connections r).of_ends ends) found⟩
    · have one := perform_of_checked (x := { x with connections }) first
      rw [performAll, List.mapM_cons, bind_of_ok one]
      exact bind_of_ok ran
    · rwa [List.append_cons]

/-- Where the link is there, it does not matter which terminal comes first. -/
theorem linked_swap {r : LinkRequest} (metadata : Metadata)
    (there : ∃ c ∈ connections.toList, c.links r.first r.second = true) :
    linked connections r.second r.first metadata =
      linked connections r.first r.second metadata := by
  have links : (fun c : Connection => c.links r.second r.first) =
      fun c => c.links r.first r.second :=
    funext fun c => sameEnds_swap (Definition.ends c) (r.first, r.second)
  obtain ⟨c, hc, joins⟩ := there
  unfold linked
  rw [links]
  cases found : connections.findIdx? (·.links r.first r.second) with
  | some i => rfl
  | none =>
    rw [Array.findIdx?_eq_none_iff.1 found c (Array.mem_toList_iff.1 hc)] at joins
    cases joins

theorem performAll_append {before : List LinkRequest} {s t : Design × Definition}
    {slots : List Nat} (ran : performAll before s = .ok slots t) (rest : List LinkRequest) :
    performAll (before ++ rest) s = (do return slots ++ (← performAll rest)) t := by
  have first := bind_of_ok (f := fun l => do return l ++ (← performAll rest)) ran
  exact (congrFun List.mapM_append s).trans first

/-- A request that is not the first one for its link may be made from the other terminal. -/
theorem performAll_swap {before after : List LinkRequest} {r : LinkRequest} {slots : List Nat}
    {y : Definition} (ran : performAll before (d, x) = .ok slots (d, y)) (checked : r.Checked d y)
    (there : ∃ c ∈ y.connections.toList, c.links r.first r.second = true) :
    performAll (before ++ r.swap :: after) (d, x) = performAll (before ++ r :: after) (d, x) := by
  have swapped : r.swap.Checked d y := checked.symm
  have same : r.swap.perform (d, y) = r.perform (d, y) := by
    rw [perform_of_checked checked, perform_of_checked swapped]
    have links := linked_swap r.brings there
    change linked y.connections r.swap.first r.swap.second r.swap.brings = _ at links
    rw [links]
  rw [performAll_append ran, performAll_append ran, performAll, performAll, List.mapM_cons,
    List.mapM_cons]
  exact seq_congr_left (seq_congr_left same _) _

end LinkRequest

/-! ## Definitions at hand -/

namespace Definition

variable {d : Design} {x : Definition} {p : WirePath}

/-- A definition whose instances are listed consistently, with one link for each pair of
terminals, and metadata that has each key once. -/
structure Tidy (x : Definition) : Prop where
  consistent : x.instances.Consistent
  unlinked : Unlinked x.connections.toList
  metadata : ∀ c ∈ x.connections.toList, c.metadata.WellFormed

theorem Sound.tidy (h : x.Sound d) : x.Tidy :=
  ⟨h.instances.consistent, h.unlinked, h.connection_metadata⟩

/-- What begins at something that is there passes its check. -/
theorem Begins.checkEnd (h : x.Begins d p) (regular : d.Regular)
    (self : d.text? selfName = some selfWord) (consistent : x.instances.Consistent) :
    x.checkEnd d p = .ok () := by
  obtain ⟨root, text, full, begins⟩ := h
  rw [checkEnd_eq text, if_neg full, if_pos]
  rcases begins with rfl | named
  · exact .inl (regular.names.get?_injective text self)
  · exact .inr ((consistent.contains_iff _).2 named)

end Definition

namespace BuildRequest

variable {d d' : Design} {x y : Definition}

/-- Whether the metadata that a request gives to a link is well formed. -/
def Keyed : BuildRequest → Prop
  | connectWithMetadata _ _ metadata | annotateConnection _ metadata => metadata.WellFormed
  | _ => True

theorem tidy_of_build (h : x.Tidy) {r : BuildRequest} (keyed : r.Keyed)
    (ok : r.build x d = .ok y d') : y.Tidy := by
  have link : ∀ {a b : WirePath} {metadata : Metadata} {y : Definition} {c : Connection},
      metadata.WellFormed → x.connect d a b metadata = .ok (y, c) → y.Tidy := by
    intro a b metadata y c keyed connected
    obtain ⟨-, -, rfl⟩ := connect_eq_ok connected
    exact ⟨h.consistent, unlinked_linked h.unlinked a b metadata, forall_linked h.metadata
      (fun c hc => (h.metadata c hc).extend keyed) (Metadata.wellFormed_empty.extend keyed)⟩
  cases r with
  | addInstance name id config =>
    obtain ⟨⟨_, _⟩, _, added, ⟨⟩⟩ := seq_eq_ok_iff.1 ok
    obtain ⟨-, -, -, -, fresh, rfl⟩ := addInstance_eq_ok added
    exact ⟨h.consistent.append fresh _, h.unlinked, h.metadata⟩
  | addGeneratorInstance name id genargs config =>
    obtain ⟨⟨_, _⟩, _, added, ⟨⟩⟩ := seq_eq_ok_iff.1 ok
    obtain ⟨-, -, -, -, fresh, rfl⟩ := addGeneratorInstance_eq_ok added
    exact ⟨h.consistent.append fresh _, h.unlinked, h.metadata⟩
  | connect a b =>
    obtain ⟨⟨_, _⟩, _, checked, ⟨⟩⟩ := seq_eq_ok_iff.1 ok
    obtain ⟨connected, rfl⟩ := check_eq_ok_iff.1 checked
    exact link Metadata.wellFormed_empty connected
  | connectWithMetadata a b metadata =>
    obtain ⟨⟨_, _⟩, _, checked, ⟨⟩⟩ := seq_eq_ok_iff.1 ok
    obtain ⟨connected, rfl⟩ := check_eq_ok_iff.1 checked
    exact link keyed connected
  | annotateInstance name metadata =>
    cases ok
    exact ⟨h.consistent.modify name _, h.unlinked, h.metadata⟩
  | annotateConnection i metadata =>
    cases ok
    exact ⟨h.consistent, h.unlinked.of_ends (ends_annotateConnection x i metadata),
      forall_annotateConnection h.metadata (fun _ _ => keyed) i⟩
  | annotate =>
    cases ok
    exact ⟨h.consistent, h.unlinked, h.metadata⟩

end BuildRequest

namespace Session

variable {s : Session} {d : Design} {x : Definition}

/-- The definitions that can be at hand in a session: new ones, copies of those that its modules
have, and what requests make of these. Meanwhile the design may become another one in which
names have the texts that they had. -/
inductive AtHand (s : Session) : Design × Definition → Prop
  | new (owner : ModuleId) : AtHand s (s.design, .empty owner)
  | copy {id : ModuleId} {m : Module} {x : Definition} (there : s.design.modules.get? id = some m)
      (body : m.definition = some x) : AtHand s (s.design, x)
  | request {t : Design × Definition} (h : AtHand s t) {r : BuildRequest} (keyed : r.Keyed) :
    AtHand s (r.left t)
  | meanwhile {d d' : Design} {x : Definition} (h : AtHand s (d, x)) (texts : d.KeepsTexts d')
      (regular : d'.Regular) : AtHand s (d', x)

theorem AtHand.tidy (reached : s.Reachable Careful) {t : Design × Definition} (h : s.AtHand t) :
    t.1.Regular ∧ t.1.text? selfName = some selfWord ∧ t.2.Tidy := by
  have sound := reached.sound_of_careful.design
  induction h with
  | new owner =>
    exact ⟨sound.toRegular, sound.self, NameMap.consistent_empty, .nil, fun c hc => nomatch hc⟩
  | copy there body =>
    exact ⟨sound.toRegular, sound.self, ((sound.moduleSound there).definition _ body).2.tidy⟩
  | meanwhile _ texts regular ih => exact ⟨regular, texts _ _ ih.2.1, ih.2.2⟩
  | @request t _ r keyed ih =>
    obtain ⟨d, x⟩ := t
    obtain ⟨regular, self, tidy⟩ := ih
    have grows := (r.onlyGrows_build x).grows d
    have regular' := (r.onlyGrows_build x).regular regular
    rw [BuildRequest.left, r.perform_apply]
    cases ran : r.build x d with
    | ok y d' =>
      rw [left_of_ok ran] at grows regular'
      exact ⟨regular', grows.names self, BuildRequest.tidy_of_build tidy keyed ran⟩
    | error e d' =>
      rw [left_of_error ran] at grows regular'
      exact ⟨regular', grows.names self, tidy⟩

/-- The requests for links decide the links. Those that were there count as the first requests.
All requests succeed, and change nothing else. Each gives the position of the link between its
own terminals. A request that is not the first one for its link may as well be made from the
other terminal. -/
structure LinksDecided (d : Design) (x : Definition) (rs : List LinkRequest) : Prop where
  links : ∃ slots connections,
    LinkRequest.performAll rs (d, x) = .ok slots (d, { x with connections }) ∧
    FollowFrom (x.connections.toList.map Connection.request ++ rs) connections.toList ∧
    Unlinked connections.toList ∧ List.Forall₂ (LinkRequest.At connections) rs slots
  swap : ∀ before r after, rs = before ++ r :: after →
    (∃ q ∈ x.connections.toList.map Connection.request ++ before,
      sameEnds r.ends q.ends = true) →
    LinkRequest.performAll (before ++ r.swap :: after) (d, x) = LinkRequest.performAll rs (d, x)

/-- Whatever links are requested of a definition at hand, between terminals that begin at
something that is there, the requests decide the links. Merging metadata is associative. -/
theorem requests_decide_links (reached : s.Reachable Careful) (atHand : s.AtHand (d, x))
    {rs : List LinkRequest} (valid : ∀ r ∈ rs, r.Valid d x) : LinksDecided d x rs ∧
      ∀ m k l : Metadata, (Assoc.keys k.entries).Nodup →
        (m.extend k).extend l = m.extend (k.extend l) := by
  obtain ⟨regular, self, tidy⟩ := atHand.tidy reached
  have checked : ∀ r ∈ rs, r.Checked d x := fun r hr =>
    ⟨(valid r hr).1.checkEnd regular self tidy.consistent,
      (valid r hr).2.checkEnd regular self tidy.consistent⟩
  have follow := followFrom_requests tidy.unlinked tidy.metadata
  refine ⟨⟨?_, ?_⟩, fun m k l nodup => m.extend_assoc nodup l⟩
  · obtain ⟨slots, connections, ran, follow', unlinked, -, found⟩ :=
      LinkRequest.performAll_of_checked checked follow tidy.unlinked
    exact ⟨slots, connections, ran, follow', unlinked, found⟩
  · rintro before r after rfl ⟨q, hq, joins⟩
    obtain ⟨slots, connections, ran, follow', -⟩ := LinkRequest.performAll_of_checked
      (fun r hr => checked r (List.mem_append_left _ hr)) follow tidy.unlinked
    have there : connections.toList.any (·.links r.first r.second) = true := by
      rw [follow'.any_links r]
      exact List.any_eq_true.2 ⟨q, hq, joins⟩
    exact LinkRequest.performAll_swap ran
      (checked r (List.mem_append_right _ List.mem_cons_self)) (List.any_eq_true.1 there)

/-- Requests for three links: one of them asked for from both sides, a loop, and one that differs
from the first in a selector only. -/
def requestsFromBothSides : List LinkRequest := [
  ⟨⟨⟨0⟩, [⟨1⟩]⟩, ⟨⟨5⟩, []⟩, none⟩,
  ⟨⟨⟨5⟩, []⟩, ⟨⟨0⟩, [⟨1⟩]⟩, some ⟨[("net", .null), ("layer", .string "m1")]⟩⟩,
  ⟨⟨⟨5⟩, []⟩, ⟨⟨5⟩, []⟩, some ⟨[("net", .bool true)]⟩⟩,
  ⟨⟨⟨5⟩, []⟩, ⟨⟨0⟩, []⟩, none⟩,
  ⟨⟨⟨0⟩, [⟨1⟩]⟩, ⟨⟨5⟩, []⟩, some ⟨[("layer", .string "m2"), ("net", .bool false)]⟩⟩]

theorem links_from_both_sides :
    let s := start.run callsWithTargets
    let built := (BuildRequest.addInstance "a" ⟨0⟩ (.ofList [(⟨1⟩, .int 8)])).left
      (s.design, .empty ⟨0⟩)
    s.Reachable Careful ∧ s.AtHand built ∧
      (∀ r ∈ requestsFromBothSides, r.Valid built.1 built.2) ∧
      LinksDecided built.1 built.2 requestsFromBothSides ∧
      (answer? (LinkRequest.performAll requestsFromBothSides built)).map (fun r =>
        (r.1, r.2.2.connections.toList.map fun c => (c.first.root, c.metadata.toJson))) =
          some ([0, 0, 1, 2, 0], [
            (⟨0⟩, .object [("net", .bool false), ("layer", .string "m2")]),
            (⟨5⟩, .object [("net", .bool true)]), (⟨5⟩, .object [])]) := by
  intro s built
  have live : s.Reachable Live := .run .start (by decide +kernel)
  have keyed : (BuildRequest.addInstance "a" ⟨0⟩ (.ofList [(⟨1⟩, .int 8)])).Keyed := trivial
  have atHand : s.AtHand (built.1, built.2) := .request (.new ⟨0⟩) keyed
  have names : built.2.instances.names = [⟨5⟩] := by decide +kernel
  have texts : built.1.text? ⟨0⟩ = some selfWord ∧ built.1.text? ⟨5⟩ = some "a" := by
    decide +kernel
  have itself : ∀ selectors, built.2.Begins built.1 ⟨⟨0⟩, selectors⟩ := fun _ =>
    ⟨selfWord, texts.1, by decide, .inl rfl⟩
  have cell : ∀ selectors, built.2.Begins built.1 ⟨⟨5⟩, selectors⟩ := fun _ =>
    ⟨"a", texts.2, by decide, .inr (by rw [names]; exact List.mem_singleton_self _)⟩
  have valid : ∀ r ∈ requestsFromBothSides, r.Valid built.1 built.2 := by
    unfold requestsFromBothSides
    simp only [List.forall_mem_cons, LinkRequest.Valid, itself, cell, and_self, true_and]
    exact List.forall_mem_nil _
  exact ⟨live.careful, atHand, valid, (requests_decide_links live.careful atHand valid).1,
    by decide +kernel⟩

end Session

end Netlist
