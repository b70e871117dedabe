import Rdns.Zones.Index

/-!
# Rdns — What the filing functions do to an index

An index is read through three views of its nodes: the `keys`, the slot at a key
(`slotAt`, an empty non-terminal where there is no node) and the count of names below
it (`childrenAt`). Every function gets one equation for each view it changes, and the
invariants are stated over the views, so no proof below unfolds the hash table.
-/

namespace Rdns.Zones

open Rdns.Lib Rdns.Core

/-! ## Views of the nodes -/

namespace Index

def slotAt (nodes : NameIndex) (key : Octets) : Slot :=
  ((nodes.get nameHash key).map Interned.slot).getD .ent

def childrenAt (nodes : NameIndex) (key : Octets) : Nat :=
  ((nodes.get nameHash key).map Interned.children).getD 0

variable {nodes : NameIndex} {ix : Index} {origin key k : Octets} {range : Nat × Nat}

theorem positionsOf_eq (ix : Index) (key : Octets) :
    ix.positionsOf key = ix.positions (slotAt ix.nodes key) := by
  unfold positionsOf slotAt get find
  cases ix.nodes.get nameHash key <;> rfl

section

variable (h : nodes.Valid nameHash)
include h

theorem get_eq_some_slotAt (hkey : key ∈ nodes.keys) :
    nodes.get nameHash key = some ⟨childrenAt nodes key, slotAt nodes key⟩ := by
  obtain ⟨node, hnode⟩ := Option.isSome_iff_exists.mp ((ArenaTable.get_isSome_iff h).mpr hkey)
  rw [childrenAt, slotAt, hnode]
  rfl

theorem get_eq_none_iff : nodes.get nameHash key = none ↔ key ∉ nodes.keys := by
  rw [← ArenaTable.get_isSome_iff h, Option.not_isSome_iff_eq_none]

theorem slotAt_of_not_mem (hkey : key ∉ nodes.keys) : slotAt nodes key = .ent := by
  rw [slotAt, (get_eq_none_iff h).mpr hkey]
  rfl

theorem mem_keys_of_slotAt_ne (hslot : slotAt nodes key ≠ .ent) : key ∈ nodes.keys :=
  by_contra fun hkey => hslot (slotAt_of_not_mem h hkey)

theorem childrenAt_of_not_mem (hkey : key ∉ nodes.keys) : childrenAt nodes key = 0 := by
  rw [childrenAt, (get_eq_none_iff h).mpr hkey]
  rfl

end

/-! ## Settled nodes -/

/-- The keys are closed under the zone's parent function, and every node counts the
keys directly below it. -/
structure Settled (origin : Octets) (nodes : NameIndex) : Prop where
  valid : nodes.Valid nameHash
  closed : Forest.Closed (parentInZone origin) nodes.keys
  counted : ∀ k ∈ nodes.keys, childrenAt nodes k = Forest.childCount (parentInZone origin) nodes.keys k

/-- The same, one step into an insertion: `name` is held and its parent has not been
credited with it, nor need it be there. -/
structure Owing (origin name : Octets) (nodes : NameIndex) : Prop where
  valid : nodes.Valid nameHash
  held : name ∈ nodes.keys
  closed : Forest.ClosedBut (parentInZone origin) name nodes.keys
  counted : ∀ k ∈ nodes.keys,
    childrenAt nodes k + (if parentInZone origin name = some k then 1 else 0)
      = Forest.childCount (parentInZone origin) nodes.keys k

theorem settled_empty (origin : Octets) : Settled origin ArenaTable.empty where
  valid := ArenaTable.valid_empty
  closed := fun _ h => absurd h List.not_mem_nil
  counted := fun _ h => absurd h List.not_mem_nil

theorem Settled.owing_fileAt (h : Settled origin nodes) (hread : nodes.read range = key)
    (hrange : range.1 + range.2 ≤ nodes.bytes.length) (hnew : key ∉ nodes.keys) (slot : Slot) :
    Owing origin key (nodes.fileAt nameHash key range ⟨0, slot⟩) where
  valid := ArenaTable.valid_fileAt h.valid hread hrange hnew _
  held := by
    rw [ArenaTable.keys_fileAt hread]
    exact List.mem_append_right _ (List.mem_singleton_self _)
  closed := by
    rw [ArenaTable.keys_fileAt hread]
    intro c hc hne k hk
    rcases List.mem_append.mp hc with hold | hone
    · exact List.mem_append_left _ (h.closed c hold k hk)
    · exact absurd (List.mem_singleton.mp hone) hne
  counted := by
    rw [ArenaTable.keys_fileAt hread]
    intro k hk
    rw [Forest.childCount_append_singleton, childrenAt,
      ArenaTable.get_fileAt h.valid hread hrange hnew]
    by_cases hkey : k = key
    · -- nothing sits below a key that was not held
      subst hkey
      rw [if_pos rfl, h.closed.childCount_eq_zero hnew]
      rfl
    · have hold : k ∈ nodes.keys := by
        rcases List.mem_append.mp hk with hold | hone
        · exact hold
        · exact absurd (List.mem_singleton.mp hone) hkey
      rw [if_neg hkey, ← h.counted k hold]
      rfl

/-! ## Noting the ancestors -/

def credited (nodes : NameIndex) (range : Nat × Nat) (parent : Octets) : NameIndex × Bool :=
  nodes.upsert nameHash parent range ⟨0, .ent⟩
    fun node => { node with children := node.children + 1 }

section Credited

variable {parent : Octets} (h : nodes.Valid nameHash) (hread : nodes.read range = parent)
  (hrange : range.1 + range.2 ≤ nodes.bytes.length)
include h hread hrange

theorem slotAt_credited (k : Octets) :
    slotAt (credited nodes range parent).1 k = slotAt nodes k := by
  rw [slotAt, slotAt, credited, ArenaTable.get_upsert h hread hrange]
  split
  · rename_i hk
    subst hk
    cases nodes.get nameHash k <;> rfl
  · rfl

theorem childrenAt_credited (k : Octets) :
    childrenAt (credited nodes range parent).1 k
      = childrenAt nodes k + if k = parent then 1 else 0 := by
  rw [childrenAt, childrenAt, credited, ArenaTable.get_upsert h hread hrange]
  split
  · rename_i hk
    subst hk
    cases nodes.get nameHash k <;> rfl
  · rfl

end Credited

section Walk

variable {name parent : Octets} (h : Owing origin name nodes)
  (hpar : parentInZone origin name = some parent) (hread : nodes.read range = parent)
  (hrange : range.1 + range.2 ≤ nodes.bytes.length)
include h hpar hread hrange

theorem Owing.settled_credited (hmem : parent ∈ nodes.keys) :
    Settled origin (credited nodes range parent).1 := by
  have hkeys : (credited nodes range parent).1.keys = nodes.keys := by
    rw [credited, ArenaTable.keys_upsert h.valid hread, if_pos hmem]
  refine ⟨ArenaTable.valid_upsert h.valid hread hrange _ _, ?_, ?_⟩
  · rw [hkeys]
    intro c hc k hk
    by_cases hcn : c = name
    · subst hcn
      rw [hpar] at hk
      cases hk
      exact hmem
    · exact h.closed c hc hcn k hk
  · rw [hkeys]
    intro k hk
    have hcount := h.counted k hk
    simp only [hpar, Option.some.injEq] at hcount
    rw [childrenAt_credited h.valid hread hrange, ← hcount]
    simp only [eq_comm]

theorem Owing.owing_credited (hnew : parent ∉ nodes.keys) :
    Owing origin parent (credited nodes range parent).1 := by
  have hkeys : (credited nodes range parent).1.keys = nodes.keys ++ [parent] := by
    rw [credited, ArenaTable.keys_upsert h.valid hread, if_neg hnew]
  have hself : parentInZone origin parent ≠ some parent :=
    (parentInZone_ranked origin).parent_ne
  refine ⟨ArenaTable.valid_upsert h.valid hread hrange _ _, ?_, ?_, ?_⟩
  · rw [hkeys]
    exact List.mem_append_right _ (List.mem_singleton_self _)
  · rw [hkeys]
    intro c hc hne k hk
    rcases List.mem_append.mp hc with hold | hone
    · by_cases hcn : c = name
      · grind
      · exact List.mem_append_left _ (h.closed c hold hcn k hk)
    · exact absurd (List.mem_singleton.mp hone) hne
  · rw [hkeys]
    intro k hk
    rw [Forest.childCount_append_singleton, childrenAt_credited h.valid hread hrange]
    by_cases hkp : k = parent
    · subst hkp
      rw [if_neg hself, if_pos rfl, childrenAt_of_not_mem h.valid hnew,
        h.closed.childCount_eq_one h.valid.nodup h.held hpar hnew]
    · have hold : k ∈ nodes.keys := by
        rcases List.mem_append.mp hk with hold | hone
        · exact hold
        · exact absurd (List.mem_singleton.mp hone) hkp
      have hcount := h.counted k hold
      rw [hpar, if_neg fun heq => hkp (Option.some.inj heq).symm] at hcount
      rw [if_neg hkp, ← hcount]

end Walk

/-- What an insertion walk leaves: the keys that were there, new ones each with a key
below it, and every slot as it was. -/
structure Grown (origin : Octets) (old new : NameIndex) : Prop where
  settled : Settled origin new
  kept : ∀ k ∈ old.keys, k ∈ new.keys
  below : ∀ k ∈ new.keys, k ∉ old.keys → ∃ c ∈ new.keys, parentInZone origin c = some k
  slots : ∀ k, slotAt new k = slotAt old k

/-- **The insertion walk settles the nodes**, from any node that owes its parent. -/
theorem noteNonTerminals_grown {octets : Octets} (hlen : range.2 = octets.length) :
    ∀ (name : Octets) (nodes : NameIndex), Owing origin name nodes →
      nodes.read range = octets → range.1 + range.2 ≤ nodes.bytes.length → name <:+ octets →
      Grown origin nodes (noteNonTerminals nodes origin range name) := by
  intro name
  -- on the length of the name, which every step up shortens
  induction hn : name.length using Nat.strongRecOn generalizing name with
  | _ n ih =>
    intro nodes h hread hrange hsuffix
    rw [noteNonTerminals]
    split
    · rename_i hpar
      refine ⟨⟨h.valid, ?_, ?_⟩, fun k hk => hk, fun k hk hnot => absurd hk hnot, fun k => rfl⟩
      · intro c hc k hk
        by_cases hcn : c = name
        · rw [hcn, hpar] at hk
          cases hk
        · exact h.closed c hc hcn k hk
      · intro k hk
        rw [← h.counted k hk, hpar]
        rfl
    · rename_i parent hpar
      have hup : parent <:+ octets :=
        (parentKey_suffix (parentInZone_eq_some.mp hpar).2.1).trans hsuffix
      have hread' := ArenaTable.read_suffix hread hlen hup
      have hle := hup.length_le
      have hrange' : range.1 + (range.2 - parent.length) + (range.2 - (range.2 - parent.length))
          ≤ nodes.bytes.length := by omega
      show Grown origin nodes (if (credited nodes _ parent).2 = true then _ else _)
      generalize hr : (range.1 + (range.2 - parent.length), range.2 - (range.2 - parent.length)) = r
        at hread'
      have hr1 : r.1 + r.2 ≤ nodes.bytes.length := by rw [← hr]; exact hrange'
      have hfresh : (credited nodes r parent).2 = true ↔ parent ∉ nodes.keys :=
        ArenaTable.upsert_fresh_iff h.valid _ _
      have hslots := slotAt_credited h.valid hread' hr1
      by_cases hmem : parent ∈ nodes.keys
      · rw [if_neg fun hf => hfresh.mp hf hmem]
        have hkeys : (credited nodes r parent).1.keys = nodes.keys := by
          rw [credited, ArenaTable.keys_upsert h.valid hread', if_pos hmem]
        refine ⟨h.settled_credited hpar hread' hr1 hmem, ?_, ?_, hslots⟩
        · intro k hk
          show k ∈ (credited nodes r parent).1.keys
          rw [hkeys]
          exact hk
        · intro k hk hnot
          replace hk : k ∈ (credited nodes r parent).1.keys := hk
          rw [hkeys] at hk
          exact absurd hk hnot
      · rw [if_pos (hfresh.mpr hmem)]
        have hkeys : (credited nodes r parent).1.keys = nodes.keys ++ [parent] := by
          rw [credited, ArenaTable.keys_upsert h.valid hread', if_neg hmem]
        have hgrown := ih parent.length (hn ▸ parentInZone_lt hpar) parent rfl
          (credited nodes r parent).1 (h.owing_credited hpar hread' hr1 hmem)
          (by rw [credited, ArenaTable.read_upsert]; exact hread)
          (by rw [credited, ArenaTable.bytes_upsert]; exact hrange) hup
        have hkept : ∀ k ∈ nodes.keys, k ∈ (noteNonTerminals (credited nodes r parent).1 origin
            range parent).keys :=
          fun k hk => hgrown.kept k (by rw [hkeys]; exact List.mem_append_left _ hk)
        refine ⟨hgrown.settled, hkept, ?_, fun k => (hgrown.slots k).trans (hslots k)⟩
        intro k hk hnot
        by_cases hkp : k = parent
        · exact ⟨name, hkept name h.held, hkp ▸ hpar⟩
        · refine hgrown.below k hk fun hin => ?_
          rw [hkeys] at hin
          rcases List.mem_append.mp hin with hold | hone
          · exact hnot hold
          · exact hkp (List.mem_singleton.mp hone)

/-! ## Slots -/

/-- A spilled slot names a list of two positions or more, and no other slot names
that list. -/
structure SlotsOk (ix : Index) : Prop where
  long : ∀ k list, slotAt ix.nodes k = .spilled list → 2 ≤ (ix.spills.getD list []).length
  own : ∀ k k' list, slotAt ix.nodes k = .spilled list → slotAt ix.nodes k' = .spilled list →
    k = k'

theorem slotsOk_empty : SlotsOk empty :=
  ⟨fun _ _ h => Slot.noConfusion h, fun _ _ _ h => Slot.noConfusion h⟩

theorem SlotsOk.lt_length (h : SlotsOk ix) {list : Nat}
    (hslot : slotAt ix.nodes k = .spilled list) : list < ix.spills.length := by
  have hlong := h.long k list hslot
  by_contra hge
  rw [List.getD_eq_getElem?_getD, List.getElem?_eq_none (Nat.not_lt.mp hge)] at hlong
  cases hlong

variable {nodes' : NameIndex}

theorem SlotsOk.congr (h : SlotsOk ix) (hslots : ∀ k, slotAt nodes' k = slotAt ix.nodes k) :
    SlotsOk { ix with nodes := nodes' } :=
  ⟨fun k list hk => h.long k list ((hslots k).symm.trans hk),
    fun k k' list hk hk' => h.own k k' list ((hslots k).symm.trans hk) ((hslots k').symm.trans hk')⟩

theorem positionsOf_congr (hslots : ∀ k, slotAt nodes' k = slotAt ix.nodes k) (k : Octets) :
    ({ ix with nodes := nodes' } : Index).positionsOf k = ix.positionsOf k := by
  rw [positionsOf_eq, positionsOf_eq, hslots]
  rfl

theorem SlotsOk.slotAt_eq_ent_iff (h : SlotsOk ix) :
    slotAt ix.nodes k = .ent ↔ ix.positionsOf k = [] := by
  rw [positionsOf_eq]
  cases hslot : slotAt ix.nodes k with
  | ent => exact ⟨fun _ => rfl, fun _ => rfl⟩
  | one position => exact ⟨fun heq => (by cases heq), fun heq => (by cases heq)⟩
  | spilled list =>
    refine ⟨fun heq => (by cases heq), fun heq => ?_⟩
    have hlong := h.long k list hslot
    rw [show ix.spills.getD list [] = [] from heq] at hlong
    cases hlong

theorem nodes_setSlot (slot : Slot) : (ix.setSlot key slot).nodes
    = ix.nodes.modify nameHash key fun node => { node with slot } := rfl

section SetSlot

variable (h : ix.nodes.Valid nameHash) (slot : Slot)
include h

theorem slotAt_setSlot (hkey : key ∈ ix.nodes.keys) (k : Octets) :
    slotAt (ix.setSlot key slot).nodes k = if k = key then slot else slotAt ix.nodes k := by
  rw [setSlot, slotAt, ArenaTable.get_modify h]
  split
  · rw [get_eq_some_slotAt h hkey]
    rfl
  · rfl

theorem childrenAt_setSlot (k : Octets) :
    childrenAt (ix.setSlot key slot).nodes k = childrenAt ix.nodes k := by
  rw [setSlot, childrenAt, childrenAt, ArenaTable.get_modify h]
  split
  · rename_i hk
    subst hk
    cases ix.nodes.get nameHash k <;> rfl
  · rfl

end SetSlot

@[simp]
theorem keys_setSlot (slot : Slot) : (ix.setSlot key slot).nodes.keys = ix.nodes.keys :=
  ArenaTable.keys_modify _

theorem Settled.setSlot (h : Settled origin ix.nodes) (slot : Slot) :
    Settled origin (ix.setSlot key slot).nodes where
  valid := by rw [nodes_setSlot]; exact ArenaTable.valid_modify h.valid _
  closed := by rw [keys_setSlot]; exact h.closed
  counted := by
    rw [keys_setSlot]
    intro k hk
    rw [childrenAt_setSlot h.valid]
    exact h.counted k hk

/-! ## Filing -/

/-- One key's slot rewritten: the other slots are as they were, and of the lists only
the one the key had, or one that was not there, may have changed. -/
structure Refiled (key : Octets) (slot : Slot) (ix ix' : Index) : Prop where
  slots : ∀ k, slotAt ix'.nodes k = if k = key then slot else slotAt ix.nodes k
  others : ∀ list < ix.spills.length, slotAt ix.nodes key ≠ .spilled list →
    ix'.spills.getD list [] = ix.spills.getD list []
  list : ∀ list, slot = .spilled list → 2 ≤ (ix'.spills.getD list []).length ∧
    (slotAt ix.nodes key = .spilled list ∨ ix.spills.length ≤ list)

section Refiled

variable {slot : Slot} {ix' : Index} (h : SlotsOk ix) (hr : Refiled key slot ix ix')
include h hr

theorem Refiled.spills_ne (hk : k ≠ key) {list : Nat} (hslot : slotAt ix.nodes k = .spilled list) :
    ix'.spills.getD list [] = ix.spills.getD list [] :=
  hr.others list (h.lt_length hslot) fun hkey => hk (h.own k key list hslot hkey)

theorem Refiled.slotsOk : SlotsOk ix' := by
  have hslots := hr.slots
  refine ⟨fun k list hk => ?_, fun k k' list hk hk' => ?_⟩
  · rw [hslots] at hk
    split at hk
    · exact (hr.list list hk).1
    · rename_i hne
      rw [hr.spills_ne h hne hk]
      exact h.long k list hk
  · -- a list the rewritten slot names was its own, or nobody's
    have hclash : ∀ k, k ≠ key → slotAt ix.nodes k = .spilled list → slot = .spilled list →
        False := by
      intro k hne hk hslot
      rcases (hr.list list hslot).2 with hmine | hfresh
      · exact hne (h.own k key list hk hmine)
      · have := h.lt_length hk
        omega
    rw [hslots] at hk hk'
    by_cases hkey : k = key
    · grind
    · rw [if_neg hkey] at hk
      by_cases hkey' : k' = key
      · rw [if_pos hkey'] at hk'
        exact (hclash k hkey hk hk').elim
      · rw [if_neg hkey'] at hk'
        exact h.own k k' list hk hk'

theorem Refiled.positionsOf (k : Octets) :
    ix'.positionsOf k = if k = key then ix'.positions slot else ix.positionsOf k := by
  rw [positionsOf_eq, hr.slots]
  split
  · rfl
  · rename_i hne
    rw [positionsOf_eq]
    cases hk : slotAt ix.nodes k with
    | ent => rfl
    | one position => rfl
    | spilled list => exact hr.spills_ne h hne hk

end Refiled

/-- **Filing appends one position to one name**, and to no other. -/
theorem file_spec (hvalid : ix.nodes.Valid nameHash) (h : SlotsOk ix)
    (hread : ix.nodes.read range = key) (hrange : range.1 + range.2 ≤ ix.nodes.bytes.length)
    (position : Nat) :
    SlotsOk (ix.file key range position).1 ∧
    ∀ k, (ix.file key range position).1.positionsOf k
      = if k = key then ix.positionsOf key ++ [position] else ix.positionsOf k := by
  suffices hr : ∃ slot, Refiled key slot ix (ix.file key range position).1 ∧
      (ix.file key range position).1.positions slot = ix.positionsOf key ++ [position] by
    obtain ⟨slot, hr, hpos⟩ := hr
    exact ⟨hr.slotsOk h, fun k => by rw [hr.positionsOf h, hpos]⟩
  rw [file, find, positionsOf_eq]
  by_cases hkey : key ∈ ix.nodes.keys
  · rw [get_eq_some_slotAt hvalid hkey]
    cases hslot : slotAt ix.nodes key with
    | ent =>
      refine ⟨.one position, ⟨fun k => slotAt_setSlot hvalid _ hkey k, fun _ _ _ => rfl,
        fun list heq => (by cases heq)⟩, rfl⟩
    | one first =>
      have hlast : (ix.spills ++ [[first, position]]).getD ix.spills.length []
          = [first, position] := by
        rw [List.getD_eq_getElem?_getD, List.getElem?_concat_length]
        rfl
      refine ⟨.spilled ix.spills.length, ⟨fun k => slotAt_setSlot hvalid _ hkey k,
        fun list hlt _ => ?_, fun list heq => ?_⟩, ?_⟩
      · grind
      · grind
      · exact hlast
    | spilled list =>
      have hlt := h.lt_length hslot
      have hget : (ix.spills.modify list (· ++ [position])).getD list []
          = ix.spills.getD list [] ++ [position] := by
        rw [List.getD_eq_getElem?_getD, List.getD_eq_getElem?_getD, List.getElem?_modify_eq,
          List.getElem?_eq_getElem hlt]
        rfl
      refine ⟨.spilled list, ⟨fun k => ?_, fun other _ hne => ?_, fun other heq => ?_⟩, hget⟩
      · grind
      · grind
      · cases heq
        refine ⟨?_, .inl hslot⟩
        show 2 ≤ ((ix.spills.modify list (· ++ [position])).getD list []).length
        have hlong := h.long key list hslot
        rw [hget, List.length_append]
        omega
  · rw [(get_eq_none_iff hvalid).mpr hkey, slotAt_of_not_mem hvalid hkey]
    refine ⟨.one position, ⟨fun k => ?_, fun _ _ _ => rfl, fun list heq => (by cases heq)⟩, rfl⟩
    show slotAt (ix.nodes.fileAt nameHash key range _) k = _
    rw [slotAt, ArenaTable.get_fileAt hvalid hread hrange hkey]
    split <;> rfl

/-! ## Taking a position out, and renumbering one -/

structure SameTree (ix ix' : Index) : Prop where
  keys : ix'.nodes.keys = ix.nodes.keys
  settled : ∀ origin, Settled origin ix.nodes → Settled origin ix'.nodes

theorem sameTree_setSlot (spills : List (List Nat)) (slot : Slot) :
    SameTree ix (({ ix with spills } : Index).setSlot key slot) :=
  ⟨@keys_setSlot { ix with spills } key slot, fun _ h => Settled.setSlot h slot⟩

theorem removeLast_eq {position : Nat} {held : List Nat} (hmem : position ∈ held)
    (hnodup : held.Nodup) : removeLast position held = some (held.erase position) := by
  rw [removeLast, if_pos hmem, (List.nodup_reverse.mpr hnodup).erase_eq_filter,
    hnodup.erase_eq_filter, List.filter_reverse, List.reverse_reverse]

theorem positions_shrunk (list : Nat) (left : List Nat) (hlt : list < ix.spills.length)
    (nodes' : NameIndex) :
    ({ nodes := nodes', spills := ix.spills.set list (shrunk list left).2 } : Index).positions
      (shrunk list left).1 = left := by
  match left with
  | [] => rfl
  | [only] => rfl
  | first :: second :: rest =>
    show (ix.spills.set list (first :: second :: rest)).getD list [] = _
    rw [List.getD_eq_getElem?_getD, List.getElem?_set_self hlt]
    rfl

theorem getD_set_ne {spills : List (List Nat)} {list other : Nat} {left : List Nat}
    (h : list ≠ other) : (spills.set list left).getD other [] = spills.getD other [] := by
  rw [List.getD_eq_getElem?_getD, List.getD_eq_getElem?_getD, List.getElem?_set_ne h]

theorem get_eq_slotAt (hvalid : ix.nodes.Valid nameHash) (hkey : key ∈ ix.nodes.keys) :
    ix.get key = some (slotAt ix.nodes key) := by
  rw [get, find, get_eq_some_slotAt hvalid hkey]
  rfl

theorem mem_keys_of_positionsOf (hvalid : ix.nodes.Valid nameHash) {position : Nat}
    (hmem : position ∈ ix.positionsOf key) : key ∈ ix.nodes.keys := by
  refine mem_keys_of_slotAt_ne hvalid fun hent => ?_
  rw [positionsOf_eq, hent] at hmem
  cases hmem

theorem replace_spec {held : List Nat} {position into : Nat} (hnodup : held.Nodup)
    (hmem : position ∈ held) (hout : into ∉ held) :
    (held.replace position into).Nodup ∧
    ∀ i, i ∈ held.replace position into ↔ i = into ∨ (i ∈ held ∧ i ≠ position) := by
  induction held with
  | nil => cases hmem
  | cons first rest ih =>
    obtain ⟨hfirst, hrest⟩ := List.nodup_cons.mp hnodup
    obtain ⟨hne, hout'⟩ := not_or.mp (List.mem_cons.not.mp hout)
    by_cases heq : first = position
    · grind
    · have hpos : position ∈ rest := by
        rcases List.mem_cons.mp hmem with h | h
        · exact absurd h.symm heq
        · exact h
      obtain ⟨hnodup', hmem'⟩ := ih hrest hpos hout'
      have hstep : (first :: rest).replace position into = first :: rest.replace position into := by
        rw [List.replace_cons, beq_false_of_ne (fun h => heq h.symm)]
      rw [hstep]
      refine ⟨List.nodup_cons.mpr ⟨fun hin => ?_, hnodup'⟩, fun i => ?_⟩
      · grind
      · grind

section Change

variable (hvalid : ix.nodes.Valid nameHash) (h : SlotsOk ix) {position : Nat}
  (hmem : position ∈ ix.positionsOf key)
include hvalid h hmem

/-- **Unfiling takes one position out of one name**, never panics where the position
is filed, and says whether the name has any left. -/
theorem unfile_spec (hnodup : (ix.positionsOf key).Nodup) :
    ∃ ix' left, ix.unfile key position = some (ix', left) ∧ SlotsOk ix' ∧ SameTree ix ix' ∧
      (∀ k, ix'.positionsOf k
        = if k = key then (ix.positionsOf key).erase position else ix.positionsOf k) ∧
      (left = true ↔ ix'.positionsOf key ≠ []) := by
  have hkey := mem_keys_of_positionsOf hvalid hmem
  rw [positionsOf_eq] at hmem hnodup ⊢
  rw [unfile, get_eq_slotAt hvalid hkey]
  cases hslot : slotAt ix.nodes key with
  | ent =>
    rw [hslot] at hmem
    cases hmem
  | one only =>
    rw [hslot] at hmem
    have honly : position = only := List.mem_singleton.mp hmem
    subst honly
    have hr : Refiled key .ent ix (ix.setSlot key .ent) :=
      ⟨fun k => slotAt_setSlot hvalid _ hkey k, fun _ _ _ => rfl, fun _ heq => (by cases heq)⟩
    have hpos := hr.positionsOf h
    refine ⟨ix.setSlot key .ent, false, rfl, hr.slotsOk h, sameTree_setSlot ix.spills .ent,
      fun k => ?_, ?_⟩
    · rw [hpos]
      refine if_congr Iff.rfl ?_ rfl
      show [] = [position].erase position
      rw [List.erase_cons_head]
    · rw [hpos, if_pos rfl]
      exact ⟨fun heq => (by cases heq), fun hne => absurd rfl hne⟩
  | spilled list =>
    rw [hslot] at hmem hnodup
    have hlt := h.lt_length hslot
    have hheld : ix.spills[list]? = some (ix.positions (.spilled list)) := by grind [positions]
    generalize ix.positions (.spilled list) = held at hmem hnodup hheld
    have hpos' := @positions_shrunk ix list (held.erase position) hlt
    have hlist : ∀ other, (shrunk list (held.erase position)).1 = .spilled other →
        other = list ∧ 2 ≤ (shrunk list (held.erase position)).2.length := by
      intro other heq
      match held.erase position, heq with
      | first :: second :: rest, heq => grind [shrunk]
    generalize hs : (shrunk list (held.erase position)).1 = slot at hpos' hlist
    generalize hl : (shrunk list (held.erase position)).2 = left at hpos' hlist
    have hr : Refiled key slot ix
        (({ ix with spills := ix.spills.set list left } : Index).setSlot key slot) := by
      refine ⟨fun k => @slotAt_setSlot { ix with spills := _ } key hvalid _ hkey k,
        fun other _ hne => ?_, fun other heq => ?_⟩
      · exact getD_set_ne fun heq => hne (heq ▸ hslot)
      · obtain ⟨rfl, hlong⟩ := hlist other heq
        refine ⟨?_, .inl hslot⟩
        show 2 ≤ ((ix.spills.set other left).getD other []).length
        rw [List.getD_eq_getElem?_getD, List.getElem?_set_self hlt]
        exact hlong
    have hpos := hr.positionsOf h
    refine ⟨_, decide (slot ≠ .ent), ?_, hr.slotsOk h,
      sameTree_setSlot (ix.spills.set list left) slot, fun k => ?_, ?_⟩
    · show (ix.spills[list]? >>= _) = _
      rw [hheld]
      show (removeLast position held >>= _) = _
      rw [removeLast_eq hmem hnodup]
      show some ((({ ix with spills := ix.spills.set list (shrunk list (held.erase position)).2 } :
          Index).setSlot key (shrunk list (held.erase position)).1),
          decide ((shrunk list (held.erase position)).1 ≠ .ent)) = _
      rw [hs, hl]
    · rw [hpos]
      exact if_congr Iff.rfl (hpos' _) rfl
    · rw [decide_eq_true_eq, ne_eq, ne_eq, ← (hr.slotsOk h).slotAt_eq_ent_iff, hr.slots,
        if_pos rfl]

/-- **Refiling renumbers one position of one name.** -/
theorem refile_spec (into : Nat) :
    ∃ ix', ix.refile key position into = some ix' ∧ SlotsOk ix' ∧ SameTree ix ix' ∧
      ∀ k, ix'.positionsOf k
        = if k = key then (ix.positionsOf key).replace position into else ix.positionsOf k := by
  have hkey := mem_keys_of_positionsOf hvalid hmem
  rw [positionsOf_eq] at hmem ⊢
  rw [refile, get_eq_slotAt hvalid hkey]
  cases hslot : slotAt ix.nodes key with
  | ent =>
    rw [hslot] at hmem
    cases hmem
  | one only =>
    rw [hslot] at hmem
    have honly : position = only := List.mem_singleton.mp hmem
    subst honly
    have hr : Refiled key (.one into) ix (ix.setSlot key (.one into)) :=
      ⟨fun k => slotAt_setSlot hvalid _ hkey k, fun _ _ _ => rfl, fun _ heq => (by cases heq)⟩
    refine ⟨ix.setSlot key (.one into), rfl, hr.slotsOk h, sameTree_setSlot ix.spills _,
      fun k => ?_⟩
    rw [hr.positionsOf h]
    refine if_congr Iff.rfl ?_ rfl
    show [into] = [position].replace position into
    rw [List.replace_cons_self]
  | spilled list =>
    rw [hslot] at hmem
    have hlt := h.lt_length hslot
    have hlong := h.long key list hslot
    have hheld : ix.spills[list]? = some (ix.positions (.spilled list)) := by grind [positions]
    have hset : (ix.spills.set list ((ix.positions (.spilled list)).replace position into)).getD
        list [] = (ix.positions (.spilled list)).replace position into := by
      rw [List.getD_eq_getElem?_getD, List.getElem?_set_self hlt]
      rfl
    have hr : Refiled key (.spilled list) ix { ix with
        spills := ix.spills.set list ((ix.positions (.spilled list)).replace position into) } := by
      refine ⟨fun k => ?_, fun other _ hne => ?_, fun other heq => ?_⟩
      · grind
      · exact getD_set_ne fun heq => hne (heq ▸ hslot)
      · grind
    refine ⟨_, ?_, hr.slotsOk h, ⟨rfl, fun _ hsettled => hsettled⟩, fun k => ?_⟩
    · grind
    · rw [hr.positionsOf h]
      exact if_congr Iff.rfl hset rfl

end Change

/-! ## Pruning -/

def Owner (nodes : NameIndex) (k : Octets) : Prop := slotAt nodes k ≠ .ent

theorem slotAt_erase (h : nodes.Valid nameHash) (hent : slotAt nodes key = .ent) (k : Octets) :
    slotAt (nodes.erase nameHash key) k = slotAt nodes k := by
  by_cases hk : k = key
  · rw [slotAt, ArenaTable.get_erase h, if_pos hk, hk, hent]
    rfl
  · rw [slotAt, ArenaTable.get_erase h, if_neg hk]
    rfl

theorem childrenAt_erase (h : nodes.Valid nameHash) (hk : k ≠ key) :
    childrenAt (nodes.erase nameHash key) k = childrenAt nodes k := by
  rw [childrenAt, ArenaTable.get_erase h, if_neg hk]
  rfl

def debited (nodes : NameIndex) (parent : Octets) : NameIndex :=
  nodes.modify nameHash parent fun node => { node with children := node.children - 1 }

theorem slotAt_debited (h : nodes.Valid nameHash) (parent k : Octets) :
    slotAt (debited nodes parent) k = slotAt nodes k := by
  rw [slotAt, slotAt, debited, ArenaTable.get_modify h]
  split
  · rename_i hk
    subst hk
    cases nodes.get nameHash k <;> rfl
  · rfl

theorem childrenAt_debited (h : nodes.Valid nameHash) (parent k : Octets) :
    childrenAt (debited nodes parent) k
      = childrenAt nodes k - if k = parent then 1 else 0 := by
  rw [childrenAt, childrenAt, debited, ArenaTable.get_modify h]
  split
  · rename_i hk
    subst hk
    cases nodes.get nameHash k <;> rfl
  · rfl

theorem keys_debited (parent : Octets) : (debited nodes parent).keys = nodes.keys :=
  ArenaTable.keys_modify _

theorem Settled.closed_erase {name : Octets} (h : Settled origin nodes)
    (hname : name ∈ nodes.keys) (hleaf : childrenAt nodes name = 0) :
    Forest.Closed (parentInZone origin) (nodes.keys.erase name) := by
  have hnone := Forest.childCount_eq_zero_iff.mp ((h.counted name hname).symm.trans hleaf)
  intro c hc k hk
  have hcmem := List.mem_of_mem_erase hc
  refine (List.mem_erase_of_ne fun heq => ?_).mpr (h.closed c hcmem k hk)
  exact hnone c hcmem (heq ▸ hk)

theorem Settled.counted_erase {name : Octets} (h : Settled origin nodes) (hname : name ∈ nodes.keys)
    (hk : k ∈ nodes.keys.erase name) :
    childrenAt nodes k = Forest.childCount (parentInZone origin) (nodes.keys.erase name) k
      + if parentInZone origin name = some k then 1 else 0 := by
  rw [h.counted k (List.mem_of_mem_erase hk)]
  exact Forest.childCount_erase hname k

structure Pruned (origin : Octets) (old new : NameIndex) : Prop where
  settled : Settled origin new
  needed : ∀ k ∈ new.keys, Forest.Needed (parentInZone origin) (Owner new) new.keys k
  slots : ∀ k, slotAt new k = slotAt old k

/-- **The removal walk leaves no name nothing needs**, if at most the name it starts
at was one. -/
theorem prune_pruned :
    ∀ (name : Octets) (nodes : NameIndex), Settled origin nodes →
      (∀ k ∈ nodes.keys, k ≠ name →
        Forest.Needed (parentInZone origin) (Owner nodes) nodes.keys k) →
      Pruned origin nodes (prune nodes origin name) := by
  intro name
  -- on the length of the name, which every step up shortens
  induction hn : name.length using Nat.strongRecOn generalizing name with
  | _ n ih =>
    intro nodes h hneeded
    rw [prune]
    by_cases hname : name ∈ nodes.keys
    · rw [get_eq_some_slotAt h.valid hname]
      dsimp only
      by_cases hstay : childrenAt nodes name > 0 ∨ slotAt nodes name ≠ .ent
      · rw [if_pos hstay]
        refine ⟨h, fun k hk => ?_, fun k => rfl⟩
        by_cases hkn : k = name
        · subst hkn
          rcases hstay with hpos | hown
          · rw [h.counted k hk] at hpos
            exact .inr (Forest.childCount_pos_iff.mp hpos)
          · exact .inl hown
        · exact hneeded k hk hkn
      · rw [if_neg hstay]
        obtain ⟨hchildren, hslot⟩ := not_or.mp hstay
        have hleaf : childrenAt nodes name = 0 := by omega
        have hent : slotAt nodes name = .ent := not_not.mp hslot
        have hkeys := ArenaTable.keys_erase h.valid name
        have hslots := slotAt_erase h.valid hent
        have hvalid := ArenaTable.valid_erase h.valid name
        have hne : ∀ k ∈ nodes.keys.erase name, k ≠ name := by
          rintro k hk rfl
          exact h.valid.nodup.not_mem_erase hk
        split
        · rename_i hpar
          refine ⟨⟨hvalid, ?_, ?_⟩, ?_, hslots⟩
          · rw [hkeys]
            exact h.closed_erase hname hleaf
          · rw [hkeys]
            intro k hk
            rw [childrenAt_erase h.valid (hne k hk), h.counted_erase hname hk, hpar]
            rfl
          · rw [hkeys]
            intro k hk
            rcases hneeded k (List.mem_of_mem_erase hk) (hne k hk) with hown | ⟨c, hc, hck⟩
            · exact .inl ((hslots k).trans_ne hown)
            · refine .inr ⟨c, (List.mem_erase_of_ne fun heq => ?_).mpr hc, hck⟩
              rw [heq, hpar] at hck
              cases hck
        · rename_i parent hpar
          have hparent : parent ∈ nodes.keys.erase name :=
            (List.mem_erase_of_ne (fun heq => (parentInZone_ranked origin).parent_ne
              (heq ▸ hpar))).mpr (h.closed name hname parent hpar)
          have hkeys' : (debited (nodes.erase nameHash name) parent).keys = nodes.keys.erase name :=
            (keys_debited parent).trans hkeys
          have hslots' : ∀ k, slotAt (debited (nodes.erase nameHash name) parent) k
              = slotAt nodes k :=
            fun k => (slotAt_debited hvalid parent k).trans (hslots k)
          have hsettled : Settled origin (debited (nodes.erase nameHash name) parent) := by
            refine ⟨ArenaTable.valid_modify hvalid _, ?_, ?_⟩
            · rw [hkeys']
              exact h.closed_erase hname hleaf
            · rw [hkeys']
              intro k hk
              rw [childrenAt_debited hvalid, childrenAt_erase h.valid (hne k hk),
                h.counted_erase hname hk, hpar]
              simp only [Option.some.injEq, eq_comm, Nat.add_sub_cancel]
          have hgone : ∀ k ∈ (debited (nodes.erase nameHash name) parent).keys, k ≠ parent →
              Forest.Needed (parentInZone origin)
                (Owner (debited (nodes.erase nameHash name) parent))
                (debited (nodes.erase nameHash name) parent).keys k := by
            rw [hkeys']
            intro k hk hkp
            rcases hneeded k (List.mem_of_mem_erase hk) (hne k hk) with hown | ⟨c, hc, hck⟩
            · exact .inl ((hslots' k).trans_ne hown)
            · refine .inr ⟨c, (List.mem_erase_of_ne fun heq => hkp ?_).mpr hc, hck⟩
              rw [heq, hpar] at hck
              exact (Option.some.inj hck).symm
          have hrest := ih parent.length (hn ▸ parentInZone_lt hpar) parent rfl _ hsettled hgone
          exact ⟨hrest.settled, hrest.needed, fun k => (hrest.slots k).trans (hslots' k)⟩
    · rw [(get_eq_none_iff h.valid).mpr hname]
      refine ⟨h, fun k hk => hneeded k hk ?_, fun k => rfl⟩
      rintro rfl
      exact hname hk

/-! ## An index of a record list -/

/-- **The index of a zone**: `ownerAt` gives the folded owner name of each position.
Every position is filed under its owner once and nowhere else, the keys are the owners
and their ancestors in the zone, and each counts the keys below it. -/
structure IndexOk (origin : Octets) (ownerAt : Nat → Option Octets) (ix : Index) : Prop where
  settled : Settled origin ix.nodes
  needed : ∀ k ∈ ix.nodes.keys,
    Forest.Needed (parentInZone origin) (Owner ix.nodes) ix.nodes.keys k
  slots : SlotsOk ix
  filed : ∀ k i, i ∈ ix.positionsOf k ↔ ownerAt i = some k
  nodup : ∀ k, (ix.positionsOf k).Nodup

theorem indexOk_empty (origin : Octets) : IndexOk origin (fun _ => none) empty where
  settled := settled_empty origin
  needed := fun _ h => absurd h List.not_mem_nil
  slots := slotsOk_empty
  filed := fun _ _ => ⟨fun h => absurd h List.not_mem_nil, fun h => (by cases h)⟩
  nodup := fun _ => List.nodup_nil

theorem IndexOk.owner_iff {ownerAt : Nat → Option Octets} (h : IndexOk origin ownerAt ix) :
    Owner ix.nodes k ↔ ∃ i, ownerAt i = some k := by
  rw [Owner, ne_eq, h.slots.slotAt_eq_ent_iff]
  constructor
  · intro hne
    obtain ⟨i, hi⟩ := List.exists_mem_of_ne_nil _ hne
    exact ⟨i, (h.filed k i).mp hi⟩
  · rintro ⟨i, hi⟩
    exact List.ne_nil_of_mem ((h.filed k i).mpr hi)

/-- **A name is held exactly when a record's owner is at or below it.** -/
theorem IndexOk.mem_keys_iff {ownerAt : Nat → Option Octets} (h : IndexOk origin ownerAt ix) :
    k ∈ ix.nodes.keys ↔
      ∃ i o, ownerAt i = some o ∧ Forest.AtOrBelow (parentInZone origin) o k := by
  rw [Forest.mem_iff_of_needed (parentInZone_ranked origin) h.settled.closed
    (fun o ho => mem_keys_of_slotAt_ne h.settled.valid ho) h.needed]
  constructor
  · rintro ⟨o, how, hbelow⟩
    obtain ⟨i, hi⟩ := h.owner_iff.mp how
    exact ⟨i, o, hi, hbelow⟩
  · rintro ⟨i, o, hi, hbelow⟩
    exact ⟨o, h.owner_iff.mpr ⟨i, hi⟩, hbelow⟩

theorem Owner.needed_mono {old new : NameIndex} (hkeys : ∀ k ∈ old.keys, k ∈ new.keys)
    (howner : ∀ k, Owner old k → Owner new k)
    (h : Forest.Needed (parentInZone origin) (Owner old) old.keys k) :
    Forest.Needed (parentInZone origin) (Owner new) new.keys k := by
  rcases h with how | ⟨c, hc, hck⟩
  · exact .inl (howner k how)
  · exact .inr ⟨c, hkeys c hc, hck⟩

theorem Settled.congr (h : Settled origin nodes) (hvalid : nodes'.Valid nameHash)
    (hkeys : nodes'.keys = nodes.keys) (hget : ∀ k, nodes'.get nameHash k = nodes.get nameHash k) :
    Settled origin nodes' where
  valid := hvalid
  closed := by rw [hkeys]; exact h.closed
  counted := by
    intro k hk
    rw [hkeys] at hk ⊢
    rw [← h.counted k hk, childrenAt, hget]
    rfl

theorem file_tree (h : Settled origin ix.nodes) (hread : ix.nodes.read range = key)
    (hrange : range.1 + range.2 ≤ ix.nodes.bytes.length) (position : Nat) :
    ((ix.file key range position).2 = true ↔ key ∉ ix.nodes.keys) ∧
    (key ∈ ix.nodes.keys → SameTree ix (ix.file key range position).1) ∧
    (key ∉ ix.nodes.keys →
      Owing origin key (ix.file key range position).1.nodes ∧
      (ix.file key range position).1.nodes.keys = ix.nodes.keys ++ [key] ∧
      (ix.file key range position).1.nodes.bytes = ix.nodes.bytes) := by
  rw [file, find]
  by_cases hkey : key ∈ ix.nodes.keys
  · rw [get_eq_some_slotAt h.valid hkey]
    refine ⟨?_, fun _ => ?_, fun hnot => absurd hkey hnot⟩
    · dsimp only
      split <;> exact ⟨fun heq => (by cases heq), fun hnot => absurd hkey hnot⟩
    · dsimp only
      split
      · exact sameTree_setSlot ix.spills _
      · exact ⟨keys_setSlot _, fun _ hs => hs.setSlot _⟩
      · exact ⟨rfl, fun _ hs => hs⟩
  · rw [(get_eq_none_iff h.valid).mpr hkey]
    exact ⟨⟨fun _ => hkey, fun _ => rfl⟩, fun hmem => absurd hmem hkey,
      fun _ => ⟨h.owing_fileAt hread hrange hkey _, ArenaTable.keys_fileAt hread _, rfl⟩⟩

/-- **Taking in a record extends the index by its position.** -/
theorem IndexOk.takeIn {ownerAt : Nat → Option Octets} (h : IndexOk origin ownerAt ix)
    {position : Nat} (hfree : ownerAt position = none) (key : Octets) :
    IndexOk origin (fun i => if i = position then some key else ownerAt i)
      (ix.takeIn origin key position) := by
  obtain ⟨hvalid, hread, hrange, hlen, hkeys, hget⟩ :=
    ArenaTable.intern_spec h.settled.valid key
  rw [Index.takeIn]
  generalize ix.nodes.intern nameHash key = interned at hvalid hread hrange hlen hkeys hget
  obtain ⟨nodes, range⟩ := interned
  dsimp only at hvalid hread hrange hlen hkeys hget ⊢
  have hsettled : Settled origin nodes := h.settled.congr hvalid hkeys hget
  have hslots : ∀ k, slotAt nodes k = slotAt ix.nodes k := fun k => by rw [slotAt, hget, slotAt]
  generalize hix : ({ ix with nodes } : Index) = ix₁
  have hnodes : ix₁.nodes = nodes := by rw [← hix]
  rw [← hnodes] at hvalid hread hrange hkeys hslots hsettled
  have hok : SlotsOk ix₁ := by rw [← hix]; exact h.slots.congr (hnodes ▸ hslots)
  have hpos₁ : ∀ k, ix₁.positionsOf k = ix.positionsOf k := by
    rw [← hix]
    exact positionsOf_congr (hnodes ▸ hslots)
  obtain ⟨hok₂, hpos₂⟩ := file_spec hvalid hok hread hrange position
  obtain ⟨hfresh, hsame, howing⟩ := file_tree hsettled hread hrange position
  generalize ix₁.file key range position = filed at hok₂ hpos₂ hfresh hsame howing
  obtain ⟨ix₂, fresh⟩ := filed
  dsimp only at hok₂ hpos₂ hfresh hsame howing ⊢
  have hfiled : ∀ k i, i ∈ ix₂.positionsOf k ↔
      (if i = position then some key else ownerAt i) = some k := by
    intro k i
    rw [hpos₂, hpos₁, hpos₁]
    by_cases hi : i = position
    · subst hi
      rw [if_pos rfl]
      have hout : ∀ k, i ∉ ix.positionsOf k := fun k hmem => by
        rw [h.filed, hfree] at hmem
        cases hmem
      split
      · rename_i hk
        subst hk
        simp
      · rename_i hk
        exact ⟨fun hmem => absurd hmem (hout k), fun heq => absurd (Option.some.inj heq).symm hk⟩
    · rw [if_neg hi, ← h.filed]
      split
      · grind
      · rfl
  have hnodup : ∀ k, (ix₂.positionsOf k).Nodup := by
    intro k
    rw [hpos₂, hpos₁, hpos₁]
    split
    · refine List.nodup_append.mpr ⟨h.nodup key, List.nodup_singleton _, fun a ha b hb => ?_⟩
      rintro rfl
      rw [List.mem_singleton.mp hb, h.filed, hfree] at ha
      cases ha
    · exact h.nodup k
  have howner₁ : ∀ k, Owner ix.nodes k → Owner ix₂.nodes k := by
    intro k hk
    rw [Owner, ne_eq, h.slots.slotAt_eq_ent_iff] at hk
    rw [Owner, ne_eq, hok₂.slotAt_eq_ent_iff, hpos₂, hpos₁, hpos₁]
    split
    · exact List.append_ne_nil_of_right_ne_nil _ (List.cons_ne_nil _ _)
    · exact hk
  by_cases hkey : key ∈ ix₁.nodes.keys
  · -- the name was held: its slot alone changed
    rw [if_neg fun hf => hfresh.mp hf hkey]
    have htree := hsame hkey
    refine ⟨htree.settled origin hsettled, fun k hk => ?_, hok₂, hfiled, hnodup⟩
    rw [htree.keys, hkeys] at hk
    refine Owner.needed_mono (fun k hk => ?_) howner₁ (h.needed k hk)
    rw [htree.keys, hkeys]
    exact hk
  · -- a new name: its ancestors are noted after it
    rw [if_pos (hfresh.mpr hkey)]
    obtain ⟨howes, hkeys₂, hbytes⟩ := howing hkey
    have hgrown := noteNonTerminals_grown hlen key ix₂.nodes howes
      (by rw [ArenaTable.read, hbytes]; exact hread) (by rw [hbytes]; exact hrange)
      (List.suffix_refl key)
    have hpos₃ := @positionsOf_congr ix₂ _ hgrown.slots
    refine ⟨hgrown.settled, fun k hk => ?_, hok₂.congr hgrown.slots, fun k i => ?_, fun k => ?_⟩
    · have howner₃ : ∀ k, Owner ix₂.nodes k → Owner (noteNonTerminals ix₂.nodes origin range key) k :=
        fun k hown => (hgrown.slots k).trans_ne hown
      by_cases hold : k ∈ ix₂.nodes.keys
      · by_cases hkk : k = key
        · refine .inl (howner₃ k ?_)
          rw [Owner, ne_eq, hok₂.slotAt_eq_ent_iff, hpos₂, if_pos hkk]
          exact List.append_ne_nil_of_right_ne_nil _ (List.cons_ne_nil _ _)
        · have hold' : k ∈ ix.nodes.keys := by
            rw [hkeys₂, hkeys] at hold
            rcases List.mem_append.mp hold with hin | hone
            · exact hin
            · exact absurd (List.mem_singleton.mp hone) hkk
          refine Owner.needed_mono (fun c hc => hgrown.kept c ?_)
            (fun c hc => howner₃ c (howner₁ c hc)) (h.needed k hold')
          rw [hkeys₂, hkeys]
          exact List.mem_append_left _ hc
      · exact .inr (hgrown.below k hk hold)
    · rw [hpos₃]
      exact hfiled k i
    · rw [hpos₃]
      exact hnodup k

/-! ## Removing a record -/

/-- The index half way through a removal: as `IndexOk`, but `spare` may be a name
nothing needs. -/
structure IndexBut (origin spare : Octets) (ownerAt : Nat → Option Octets) (ix : Index) : Prop where
  settled : Settled origin ix.nodes
  needed : ∀ k ∈ ix.nodes.keys, k ≠ spare →
    Forest.Needed (parentInZone origin) (Owner ix.nodes) ix.nodes.keys k
  slots : SlotsOk ix
  filed : ∀ k i, i ∈ ix.positionsOf k ↔ ownerAt i = some k
  nodup : ∀ k, (ix.positionsOf k).Nodup

variable {ownerAt : Nat → Option Octets} {spare : Octets} {position : Nat}

theorem IndexBut.indexOk (h : IndexBut origin spare ownerAt ix) {i : Nat}
    (hi : ownerAt i = some spare) : IndexOk origin ownerAt ix where
  settled := h.settled
  needed := by
    intro k hk
    by_cases hks : k = spare
    · refine .inl fun hent => ?_
      have hmem := (h.filed spare i).mpr hi
      rw [← hks, h.slots.slotAt_eq_ent_iff.mp hent] at hmem
      cases hmem
    · exact h.needed k hk hks
  slots := h.slots
  filed := h.filed
  nodup := h.nodup

theorem IndexBut.prune (h : IndexBut origin spare ownerAt ix) :
    IndexOk origin ownerAt { ix with nodes := prune ix.nodes origin spare } := by
  have hpruned := prune_pruned spare ix.nodes h.settled h.needed
  have hpos := @positionsOf_congr ix _ hpruned.slots
  refine ⟨hpruned.settled, hpruned.needed, h.slots.congr hpruned.slots, fun k i => ?_, fun k => ?_⟩
  · rw [hpos]
    exact h.filed k i
  · rw [hpos]
    exact h.nodup k

theorem IndexOk.unfile (h : IndexOk origin ownerAt ix) (hkey : ownerAt position = some key) :
    ∃ ix' left, ix.unfile key position = some (ix', left) ∧
      IndexBut origin key (fun i => if i = position then none else ownerAt i) ix' ∧
      (left = true → ∃ i, i ≠ position ∧ ownerAt i = some key) := by
  have hmem := (h.filed key position).mpr hkey
  obtain ⟨ix', left, hrun, hok, htree, hpos, hleft⟩ :=
    unfile_spec h.settled.valid h.slots hmem (h.nodup key)
  have hfiled : ∀ k i, i ∈ ix'.positionsOf k ↔
      (if i = position then none else ownerAt i) = some k := by
    intro k i
    rw [hpos]
    by_cases hk : k = key
    · subst hk
      rw [if_pos rfl, (h.nodup k).mem_erase_iff, h.filed]
      by_cases hi : i = position <;> simp [hi]
    · rw [if_neg hk, h.filed]
      by_cases hi : i = position
      · grind
      · rw [if_neg hi]
  refine ⟨ix', left, hrun, ⟨htree.settled origin h.settled, fun k hk hne => ?_, hok, hfiled,
    fun k => ?_⟩, fun hl => ?_⟩
  · rw [htree.keys] at hk ⊢
    rcases h.needed k hk with how | hchild
    · refine .inl ?_
      rw [Owner, ne_eq, h.slots.slotAt_eq_ent_iff] at how
      rw [Owner, ne_eq, hok.slotAt_eq_ent_iff, hpos, if_neg hne]
      exact how
    · exact .inr hchild
  · rw [hpos]
    split
    · exact (h.nodup key).erase position
    · exact h.nodup k
  · obtain ⟨i, hi⟩ := List.exists_mem_of_ne_nil _ (hleft.mp hl)
    rw [hfiled] at hi
    split at hi
    · cases hi
    · exact ⟨i, ‹_›, hi⟩

theorem IndexBut.refile (h : IndexBut origin spare ownerAt ix) {into : Nat}
    (hkey : ownerAt position = some key) (hfree : ownerAt into = none) :
    ∃ ix', ix.refile key position into = some ix' ∧
      IndexBut origin spare
        (fun i => if i = into then some key else if i = position then none else ownerAt i) ix' := by
  have hmem := (h.filed key position).mpr hkey
  obtain ⟨ix', hrun, hok, htree, hpos⟩ := refile_spec h.settled.valid h.slots hmem into
  have hout : ∀ k, into ∉ ix.positionsOf k := by
    intro k hin
    rw [h.filed, hfree] at hin
    cases hin
  have hne : into ≠ position := by
    rintro rfl
    rw [hfree] at hkey
    cases hkey
  have hreplaced := replace_spec (h.nodup key) hmem (hout key)
  refine ⟨ix', hrun, ⟨htree.settled origin h.settled, fun k hk hks => ?_, hok, fun k i => ?_,
    fun k => ?_⟩⟩
  · rw [htree.keys] at hk ⊢
    rcases h.needed k hk hks with how | hchild
    · refine .inl ?_
      rw [Owner, ne_eq, h.slots.slotAt_eq_ent_iff] at how
      rw [Owner, ne_eq, hok.slotAt_eq_ent_iff, hpos]
      split
      · exact List.ne_nil_of_mem (hreplaced.2 into |>.mpr (.inl rfl))
      · exact how
    · exact .inr hchild
  · rw [hpos]
    by_cases hk : k = key
    · subst hk
      rw [if_pos rfl, hreplaced.2, h.filed]
      by_cases hi : i = into
      · simp [hi]
      · by_cases hip : i = position <;> simp [hi, hip]
    · rw [if_neg hk, h.filed]
      by_cases hi : i = into
      · rw [hi, if_pos rfl, hfree]
        exact ⟨fun heq => (by cases heq), fun heq => absurd (Option.some.inj heq).symm hk⟩
      · grind
  · rw [hpos]
    split
    · exact hreplaced.1
    · exact h.nodup k

end Index

end Rdns.Zones
