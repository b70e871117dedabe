import Rdns.Core.Name
import Rdns.Lib.ArenaTable
import Rdns.Lib.Forest

/-!
# Rdns — The name index of a zone

`NameIndex`, `Slot` and the filing functions of `rdns/src/zone.rs`: positions in the
record vector by the folded wire form of the owner name, and for every name the number
of names directly below it, which is what decides when an empty non-terminal dies.

The two fields of the source's `Zone` that the filing functions take together, `index`
and `spills`, are one structure here.

What every function keeps of an index:

  * `SlotsOk` — a spilled slot names a list of its own, of two positions or more;
  * `Settled` — the keys are closed under the parent function of the zone and every
    `children` field counts them; `Owing` is the same half way through an insertion.
-/

namespace Rdns.Zones

open Rdns.Lib Rdns.Core

/-! ## Keys -/

def leWord : Octets → UInt64
  | [] => 0
  | b :: rest => b.toUInt64 ||| (leWord rest <<< 8)

def hashMix (h word : UInt64) : UInt64 :=
  (((h <<< 5) ||| (h >>> 59)) ^^^ word) * 0x517cc1b727220a95

def nameHashFrom (h : UInt64) : Octets → UInt64
  | a :: b :: c :: d :: e :: f :: g :: i :: rest =>
    nameHashFrom (hashMix h (leWord [a, b, c, d, e, f, g, i])) rest
  | tail => hashMix h (leWord tail)

def nameHash (key : Octets) : UInt64 := nameHashFrom 0 key

def parentKey : Octets → Option Octets
  | [] => none
  | len :: tail =>
    if len.toNat = 0 ∨ tail.length < len.toNat then none else some (tail.drop len.toNat)

/-- The parent of `name` when this zone is the one that holds it: none at the apex,
and none where the parent would be shorter than the apex. -/
def parentInZone (origin name : Octets) : Option Octets :=
  if name = origin then none
  else match parentKey name with
    | none => none
    | some parent => if origin.length ≤ parent.length then some parent else none

variable {name parent : Octets}

theorem parentKey_lt (h : parentKey name = some parent) : parent.length < name.length := by
  cases name with
  | nil => cases h
  | cons len tail => grind [parentKey]

theorem parentInZone_eq_some {origin : Octets} :
    parentInZone origin name = some parent ↔
      name ≠ origin ∧ parentKey name = some parent ∧ origin.length ≤ parent.length := by
  unfold parentInZone
  constructor
  · grind
  · grind

theorem parentKey_suffix (h : parentKey name = some parent) : parent <:+ name := by
  cases name with
  | nil => cases h
  | cons len tail => grind [parentKey, List.drop_suffix]

theorem parentInZone_lt {origin : Octets} (h : parentInZone origin name = some parent) :
    parent.length < name.length :=
  parentKey_lt (parentInZone_eq_some.mp h).2.1

theorem parentInZone_ranked (origin : Octets) :
    Forest.Ranked (parentInZone origin) List.length :=
  fun _ _ => parentInZone_lt

theorem parentKey_wire (name : Name) : parentKey name.wire = name.parent.map Name.wire := by
  cases hlabels : name.labels with
  | nil =>
    have hroot : name.isRoot = true := Name.isRoot_iff.mpr hlabels
    rw [Name.wire, hlabels, Name.parent, if_pos hroot]
    rfl
  | cons label rest =>
    have hvalid : ValidLabel label := name.labels_ok label (by rw [hlabels]; exact List.mem_cons_self)
    have hlen := toNat_lengthOctet hvalid
    have hroot : ¬ name.isRoot = true := by rw [Name.isRoot_iff, hlabels]; exact List.cons_ne_nil _ _
    have hdrop : (name.dropLabels 1).wire = wireOf rest := by
      rw [Name.wire, Name.dropLabels_labels, hlabels]
      rfl
    rw [Name.parent, if_neg hroot, Option.map_some, hdrop, Name.wire, hlabels, wireOf_cons]
    show (if (UInt8.ofNat label.length).toNat = 0 ∨
        (label ++ wireOf rest).length < (UInt8.ofNat label.length).toNat then none
      else some ((label ++ wireOf rest).drop (UInt8.ofNat label.length).toNat)) = _
    have hpos : 0 < label.length := by
      have := hvalid
      unfold ValidLabel at this
      omega
    rw [hlen, if_neg (by rw [List.length_append]; omega), List.drop_left]

/-! ## The index -/

/-- Where one owner name's records are: nowhere for an empty non-terminal, at one
position, or in a list of `spills`. -/
inductive Slot where
  | ent
  | one (position : Nat)
  | spilled (list : Nat)
deriving DecidableEq

/-- One name in the index: how many names it holds directly below this one, and what
is at it. -/
structure Interned where
  children : Nat
  slot : Slot
deriving DecidableEq

abbrev NameIndex := ArenaTable Interned

structure Index where
  nodes : NameIndex
  spills : List (List Nat)

namespace Index

def empty : Index := ⟨ArenaTable.empty, []⟩

def find (ix : Index) (key : Octets) : Option Interned := ix.nodes.get nameHash key

def get (ix : Index) (key : Octets) : Option Slot := (ix.find key).map Interned.slot

def containsKey (ix : Index) (key : Octets) : Bool := (ix.find key).isSome

def positions (ix : Index) : Slot → List Nat
  | .ent => []
  | .one position => [position]
  | .spilled list => ix.spills.getD list []

def positionsOf (ix : Index) (key : Octets) : List Nat :=
  match ix.get key with
  | some slot => ix.positions slot
  | none => []

def setSlot (ix : Index) (key : Octets) (slot : Slot) : Index :=
  { ix with nodes := ix.nodes.modify nameHash key fun node => { node with slot } }

/-- File `position` under `key`, spilling at the second record; whether `key` was
new. -/
def file (ix : Index) (key : Octets) (range : Nat × Nat) (position : Nat) : Index × Bool :=
  match ix.find key with
  | none => ({ ix with nodes := ix.nodes.fileAt nameHash key range ⟨0, .one position⟩ }, true)
  | some node => match node.slot with
    | .ent => (ix.setSlot key (.one position), false)
    | .one first =>
      ({ ix.setSlot key (.spilled ix.spills.length) with
          spills := ix.spills ++ [[first, position]] }, false)
    | .spilled list => ({ ix with spills := ix.spills.modify list (· ++ [position]) }, false)

/-- Record every ancestor of `name`, up to the apex, as a name that exists, and credit
each with the child below it. -/
def noteNonTerminals (nodes : NameIndex) (origin : Octets) (range : Nat × Nat) (name : Octets) :
    NameIndex :=
  match hpar : parentInZone origin name with
  | none => nodes
  | some parent =>
    have := parentInZone_lt hpar
    let skipped := range.2 - parent.length
    let (nodes, fresh) := nodes.upsert nameHash parent (range.1 + skipped, range.2 - skipped)
      ⟨0, .ent⟩ fun node => { node with children := node.children + 1 }
    if fresh then noteNonTerminals nodes origin range parent else nodes
termination_by name.length

def takeIn (ix : Index) (origin key : Octets) (position : Nat) : Index :=
  let (nodes, range) := ix.nodes.intern nameHash key
  let (ix, fresh) := file { ix with nodes } key range position
  if fresh then { ix with nodes := noteNonTerminals ix.nodes origin range key } else ix

def removeLast (position : Nat) (held : List Nat) : Option (List Nat) :=
  if position ∈ held then some (held.reverse.erase position).reverse else none

def shrunk (list : Nat) : List Nat → Slot × List Nat
  | [] => (.ent, [])
  | [only] => (.one only, [])
  | many => (.spilled list, many)

/-- Take `position` out of whatever `key`'s slot holds; whether the name has records
left. -/
def unfile (ix : Index) (key : Octets) (position : Nat) : Option (Index × Bool) := do
  let slot ← ix.get key
  match slot with
  | .ent => return (ix, false)
  | .one _ => return (ix.setSlot key .ent, false)
  | .spilled list =>
    let held ← ix.spills[list]?
    let left ← removeLast position held
    let (slot, left) := shrunk list left
    return (({ ix with spills := ix.spills.set list left }).setSlot key slot, slot ≠ .ent)

def refile (ix : Index) (key : Octets) («from» into : Nat) : Option Index := do
  let slot ← ix.get key
  match slot with
  | .ent => return ix
  | .one _ => return ix.setSlot key (.one into)
  | .spilled list =>
    let held ← ix.spills[list]?
    if «from» ∈ held then return { ix with spills := ix.spills.set list (held.replace «from» into) }
    else none

def prune (nodes : NameIndex) (origin name : Octets) : NameIndex :=
  match nodes.get nameHash name with
  | none => nodes
  | some node =>
    if node.children > 0 ∨ node.slot ≠ .ent then nodes
    else
      let nodes := nodes.erase nameHash name
      match hpar : parentInZone origin name with
      | none => nodes
      | some parent =>
        have := parentInZone_lt hpar
        -- `saturating_add_signed(-1)`
        prune (nodes.modify nameHash parent fun node => { node with children := node.children - 1 })
          origin parent
termination_by name.length

end Index

end Rdns.Zones
