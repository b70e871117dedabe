import Mathlib.Data.List.Nodup
import Rdns.Lib.Octets

/-!
# A hash table whose keys live in an arena

Every key is a range of one append-only octet string; an entry holds the range, the
hash it was filed under, and a value. A probe compares the hash and then the octets,
so two keys that hash alike stay apart. Several entries may share octets: a range may
lie inside another.

The table is read through two views, and each operation has one law for either.

`Valid` is what the laws need of a table, and every operation keeps it.
-/

namespace Rdns.Lib

/-- An entry: the hash it is filed under, where its key's octets are, the value. -/
structure Filed (V : Type) where
  hash : UInt64
  off : Nat
  len : Nat
  value : V

structure ArenaTable (V : Type) where
  bytes : Octets
  entries : List (Filed V)

namespace ArenaTable

variable {V : Type}

def empty : ArenaTable V := ⟨[], []⟩

def read (t : ArenaTable V) (range : Nat × Nat) : Octets :=
  (t.bytes.drop range.1).take range.2

def keyOf (t : ArenaTable V) (entry : Filed V) : Octets := t.read (entry.off, entry.len)

def keys (t : ArenaTable V) : List Octets := t.entries.map t.keyOf

section Operations

variable (hash : Octets → UInt64)

def hits (t : ArenaTable V) (key : Octets) (entry : Filed V) : Bool :=
  entry.hash == hash key && t.keyOf entry == key

def find (t : ArenaTable V) (key : Octets) : Option (Filed V) :=
  t.entries.find? (t.hits hash key)

def get (t : ArenaTable V) (key : Octets) : Option V :=
  (t.find hash key).map Filed.value

def modify (t : ArenaTable V) (key : Octets) (f : V → V) : ArenaTable V :=
  { t with entries := t.entries.map fun entry =>
      if t.hits hash key entry then { entry with value := f entry.value } else entry }

def fileAt (t : ArenaTable V) (key : Octets) (range : Nat × Nat) (value : V) : ArenaTable V :=
  { t with entries := t.entries ++ [⟨hash key, range.1, range.2, value⟩] }

/-- Change the value at `key`, filing `fresh` there first if the key is new; whether
it was. -/
def upsert (t : ArenaTable V) (key : Octets) (range : Nat × Nat) (fresh : V) (f : V → V) :
    ArenaTable V × Bool :=
  match t.find hash key with
  | some _ => (t.modify hash key f, false)
  | none => (t.fileAt hash key range (f fresh), true)

def erase (t : ArenaTable V) (key : Octets) : ArenaTable V :=
  { t with entries := t.entries.eraseP (t.hits hash key) }

def intern (t : ArenaTable V) (key : Octets) : ArenaTable V × (Nat × Nat) :=
  match t.find hash key with
  | some entry => (t, (entry.off, entry.len))
  | none => ({ t with bytes := t.bytes ++ key }, (t.bytes.length, key.length))

/-- What the operations rely on: every entry is filed under its own hash, lies in the
arena, and no two share a key. -/
structure Valid (t : ArenaTable V) : Prop where
  hashed : ∀ entry ∈ t.entries, entry.hash = hash (t.keyOf entry)
  within : ∀ entry ∈ t.entries, entry.off + entry.len ≤ t.bytes.length
  nodup : t.keys.Nodup

end Operations

section Laws

variable {hash : Octets → UInt64} {t : ArenaTable V} {key k : Octets} {range : Nat × Nat}

theorem valid_empty : (empty : ArenaTable V).Valid hash :=
  ⟨fun _ h => absurd h List.not_mem_nil, fun _ h => absurd h List.not_mem_nil, List.nodup_nil⟩

theorem Valid.hits_iff (h : t.Valid hash) {entry : Filed V} (hmem : entry ∈ t.entries) :
    t.hits hash key entry = true ↔ t.keyOf entry = key := by
  rw [hits, Bool.and_eq_true, beq_iff_eq, beq_iff_eq]
  refine ⟨And.right, fun hkey => ⟨?_, hkey⟩⟩
  rw [h.hashed entry hmem, hkey]

theorem find_eq_some (h : t.Valid hash) {entry : Filed V} :
    t.find hash key = some entry ↔ entry ∈ t.entries ∧ t.keyOf entry = key := by
  constructor
  · intro hfind
    have hmem := List.mem_of_find?_eq_some hfind
    exact ⟨hmem, (h.hits_iff hmem).mp (List.find?_some hfind)⟩
  · rintro ⟨hmem, hkey⟩
    obtain ⟨found, hfound⟩ := Option.isSome_iff_exists.mp
      (List.find?_isSome.mpr ⟨entry, hmem, (h.hits_iff hmem).mpr hkey⟩)
    -- no two entries share a key
    have hmem' := List.mem_of_find?_eq_some hfound
    have hkey' := (h.hits_iff hmem').mp (List.find?_some hfound)
    rw [find, hfound, List.inj_on_of_nodup_map h.nodup hmem' hmem (hkey'.trans hkey.symm)]

theorem find_isSome_iff (h : t.Valid hash) : (t.find hash key).isSome = true ↔ key ∈ t.keys := by
  rw [Option.isSome_iff_exists, keys, List.mem_map]
  exact exists_congr fun entry => find_eq_some h

theorem get_isSome_iff (h : t.Valid hash) : (t.get hash key).isSome = true ↔ key ∈ t.keys := by
  rw [get, Option.isSome_map]
  exact find_isSome_iff h

theorem get_eq_some (h : t.Valid hash) {value : V} :
    t.get hash key = some value ↔ ∃ entry ∈ t.entries, t.keyOf entry = key ∧ entry.value = value := by
  rw [get, Option.map_eq_some_iff]
  simp only [find_eq_some h, and_assoc]

/-! ## Changing a value in place -/

@[simp]
theorem keys_modify (f : V → V) : (t.modify hash key f).keys = t.keys := by
  rw [keys, keys, modify, List.map_map]
  refine List.map_congr_left fun entry _ => ?_
  show t.keyOf (if t.hits hash key entry = true then _ else _) = t.keyOf entry
  split <;> rfl

theorem valid_modify (h : t.Valid hash) (f : V → V) : (t.modify hash key f).Valid hash := by
  have hentry : ∀ entry ∈ (t.modify hash key f).entries, ∃ old ∈ t.entries,
      entry.hash = old.hash ∧ entry.off = old.off ∧ entry.len = old.len := by
    intro entry hmem
    obtain ⟨old, hold, rfl⟩ := List.mem_map.mp hmem
    refine ⟨old, hold, ?_⟩
    split <;> exact ⟨rfl, rfl, rfl⟩
  refine ⟨fun entry hmem => ?_, fun entry hmem => ?_, by rw [keys_modify]; exact h.nodup⟩
  · obtain ⟨old, hold, hhash, hoff, hlen⟩ := hentry entry hmem
    have hkey : (t.modify hash key f).keyOf entry = t.keyOf old := by
      rw [keyOf, keyOf, hoff, hlen]
      rfl
    rw [hhash, hkey]
    exact h.hashed old hold
  · obtain ⟨old, hold, -, hoff, hlen⟩ := hentry entry hmem
    rw [hoff, hlen]
    exact h.within old hold

theorem get_modify (h : t.Valid hash) (f : V → V) (k : Octets) :
    (t.modify hash key f).get hash k =
      if k = key then (t.get hash key).map f else t.get hash k := by
  apply Option.ext
  intro value
  rw [get_eq_some (valid_modify h f)]
  constructor
  · rintro ⟨entry, hmem, hkey, rfl⟩
    obtain ⟨old, hold, rfl⟩ := List.mem_map.mp hmem
    by_cases hhit : t.hits hash key old = true
    · have hold' := (h.hits_iff hold).mp hhit
      simp only [hhit, if_true] at hkey ⊢
      have hk : t.keyOf old = k := hkey
      rw [if_pos (hk.symm.trans hold'), Option.map_eq_some_iff]
      exact ⟨old.value, (get_eq_some h).mpr ⟨old, hold, hold', rfl⟩, rfl⟩
    · simp only [hhit] at hkey ⊢
      have hk : t.keyOf old = k := hkey
      rw [if_neg fun heq => hhit ((h.hits_iff hold).mpr (hk.trans heq))]
      exact (get_eq_some h).mpr ⟨old, hold, hk, rfl⟩
  · intro hget
    split at hget
    · rename_i heq
      obtain ⟨old, hold, rfl⟩ := Option.map_eq_some_iff.mp hget
      obtain ⟨entry, hmem, hkey, rfl⟩ := (get_eq_some h).mp hold
      refine ⟨{ entry with value := f entry.value }, ?_, ?_, rfl⟩
      · exact List.mem_map.mpr ⟨entry, hmem, if_pos ((h.hits_iff hmem).mpr hkey)⟩
      · exact hkey.trans heq.symm
    · rename_i hne
      obtain ⟨entry, hmem, hkey, rfl⟩ := (get_eq_some h).mp hget
      refine ⟨entry, List.mem_map.mpr ⟨entry, hmem, if_neg fun hhit => hne ?_⟩, hkey, rfl⟩
      exact hkey.symm.trans ((h.hits_iff hmem).mp hhit)

/-! ## Filing a new key -/

theorem keys_fileAt (hread : t.read range = key) (value : V) :
    (t.fileAt hash key range value).keys = t.keys ++ [key] := by
  rw [keys, fileAt, List.map_append, ← hread]
  rfl

theorem valid_fileAt (h : t.Valid hash) (hread : t.read range = key)
    (hrange : range.1 + range.2 ≤ t.bytes.length) (hnew : key ∉ t.keys) (value : V) :
    (t.fileAt hash key range value).Valid hash := by
  refine ⟨fun entry hmem => ?_, fun entry hmem => ?_, ?_⟩
  · rcases List.mem_append.mp hmem with hold | hone
    · exact h.hashed entry hold
    · rw [List.mem_singleton.mp hone, ← hread]
      rfl
  · rcases List.mem_append.mp hmem with hold | hone
    · exact h.within entry hold
    · rw [List.mem_singleton.mp hone]
      exact hrange
  · rw [keys_fileAt hread, List.nodup_append]
    refine ⟨h.nodup, List.nodup_singleton _, fun a ha b hb => ?_⟩
    rintro rfl
    exact hnew (List.mem_singleton.mp hb ▸ ha)

theorem get_fileAt (h : t.Valid hash) (hread : t.read range = key)
    (hrange : range.1 + range.2 ≤ t.bytes.length) (hnew : key ∉ t.keys) (value : V) (k : Octets) :
    (t.fileAt hash key range value).get hash k = if k = key then some value else t.get hash k := by
  have hvalid := valid_fileAt h hread hrange hnew value
  by_cases hk : k = key
  · subst hk
    rw [if_pos rfl, get_eq_some hvalid]
    exact ⟨_, List.mem_append_right _ (List.mem_singleton_self _), hread, rfl⟩
  · rw [if_neg hk]
    apply Option.ext
    intro found
    rw [get_eq_some hvalid, get_eq_some h]
    constructor
    · rintro ⟨entry, hmem, hkey, rfl⟩
      rcases List.mem_append.mp hmem with hold | hone
      · exact ⟨entry, hold, hkey, rfl⟩
      · rw [List.mem_singleton.mp hone] at hkey
        exact absurd (hkey.symm.trans hread) hk
    · rintro ⟨entry, hmem, hkey, rfl⟩
      exact ⟨entry, List.mem_append_left _ hmem, hkey, rfl⟩

theorem find_eq_none_iff (h : t.Valid hash) : t.find hash key = none ↔ key ∉ t.keys := by
  rw [← find_isSome_iff h, Option.not_isSome_iff_eq_none]

theorem upsert_fresh_iff (h : t.Valid hash) (fresh : V) (f : V → V) :
    (t.upsert hash key range fresh f).2 = true ↔ key ∉ t.keys := by
  rw [← find_eq_none_iff h, upsert]
  cases t.find hash key <;> simp

theorem keys_upsert (h : t.Valid hash) (hread : t.read range = key) (fresh : V) (f : V → V) :
    (t.upsert hash key range fresh f).1.keys =
      if key ∈ t.keys then t.keys else t.keys ++ [key] := by
  rw [upsert]
  cases hfind : t.find hash key with
  | none => rw [if_neg ((find_eq_none_iff h).mp hfind), keys_fileAt hread]
  | some entry => grind [find_isSome_iff, keys_modify]

section Upsert

variable (h : t.Valid hash) (hread : t.read range = key)
  (hrange : range.1 + range.2 ≤ t.bytes.length)
include h hread hrange

theorem valid_upsert (fresh : V) (f : V → V) :
    (t.upsert hash key range fresh f).1.Valid hash := by
  rw [upsert]
  cases hfind : t.find hash key with
  | none => exact valid_fileAt h hread hrange ((find_eq_none_iff h).mp hfind) _
  | some entry => exact valid_modify h f

theorem get_upsert (fresh : V) (f : V → V) (k : Octets) :
    (t.upsert hash key range fresh f).1.get hash k =
      if k = key then some (f ((t.get hash key).getD fresh)) else t.get hash k := by
  have hget : t.get hash key = (t.find hash key).map Filed.value := rfl
  rw [upsert, hget]
  cases hfind : t.find hash key with
  | none => exact get_fileAt h hread hrange ((find_eq_none_iff h).mp hfind) _ k
  | some entry => grind [get_modify]

end Upsert

@[simp]
theorem bytes_upsert (fresh : V) (f : V → V) :
    (t.upsert hash key range fresh f).1.bytes = t.bytes := by
  rw [upsert]
  cases t.find hash key <;> rfl

/-! ## Taking a key out -/

theorem keys_erase (h : t.Valid hash) (key : Octets) : (t.erase hash key).keys = t.keys.erase key := by
  have hhits : ∀ entry ∈ t.entries, t.hits hash key entry = (key == t.keyOf entry) := by
    intro entry hmem
    rw [Bool.eq_iff_iff, h.hits_iff hmem, beq_iff_eq]
    exact eq_comm
  have herase : t.entries.eraseP (t.hits hash key)
      = t.entries.eraseP ((key == ·) ∘ t.keyOf) := by
    revert hhits
    generalize t.entries = entries
    intro hhits
    induction entries with
    | nil => rfl
    | cons entry rest ih =>
      rw [List.eraseP_cons, List.eraseP_cons, hhits entry List.mem_cons_self,
        ih fun e he => hhits e (List.mem_cons_of_mem _ he)]
      rfl
  rw [keys, keys, erase, List.erase_eq_eraseP, List.eraseP_map, ← herase]
  rfl

theorem valid_erase (h : t.Valid hash) (key : Octets) : (t.erase hash key).Valid hash :=
  ⟨fun entry hmem => h.hashed entry (List.mem_of_mem_eraseP hmem),
    fun entry hmem => h.within entry (List.mem_of_mem_eraseP hmem),
    by rw [keys_erase h]; exact h.nodup.erase key⟩

theorem get_erase (h : t.Valid hash) (k : Octets) :
    (t.erase hash key).get hash k = if k = key then none else t.get hash k := by
  have hvalid := valid_erase h key
  by_cases hk : k = key
  · subst hk
    rw [if_pos rfl, ← Option.not_isSome_iff_eq_none, get_isSome_iff hvalid, keys_erase h]
    exact h.nodup.not_mem_erase
  · rw [if_neg hk]
    apply Option.ext
    intro value
    rw [get_eq_some hvalid, get_eq_some h]
    constructor
    · rintro ⟨entry, hmem, hkey, rfl⟩
      exact ⟨entry, List.mem_of_mem_eraseP hmem, hkey, rfl⟩
    · rintro ⟨entry, hmem, hkey, rfl⟩
      refine ⟨entry, (List.mem_eraseP_of_neg fun hhit => hk ?_).mpr hmem, hkey, rfl⟩
      exact hkey.symm.trans ((h.hits_iff hmem).mp hhit)

/-! ## Interning -/

theorem read_append (h : range.1 + range.2 ≤ t.bytes.length) (more : Octets) :
    ({ t with bytes := t.bytes ++ more } : ArenaTable V).read range = t.read range := by
  show ((t.bytes ++ more).drop range.1).take range.2 = (t.bytes.drop range.1).take range.2
  rw [List.drop_append_of_le_length (by omega), List.take_append_of_le_length]
  rw [List.length_drop]
  omega

theorem read_suffix {octets tail : Octets} (hread : t.read range = octets)
    (hlen : range.2 = octets.length) (htail : tail <:+ octets) :
    t.read (range.1 + (range.2 - tail.length), range.2 - (range.2 - tail.length)) = tail := by
  obtain ⟨front, rfl⟩ := htail
  rw [List.length_append] at hlen
  have hskip : range.2 - tail.length = front.length := by omega
  have hdrop : (t.read range).drop front.length = tail := by rw [hread, List.drop_left]
  rw [hskip]
  show (t.bytes.drop (range.1 + front.length)).take (range.2 - front.length) = tail
  rw [← hdrop, read, List.drop_take, List.drop_drop]

@[simp]
theorem read_upsert (fresh : V) (f : V → V) (r : Nat × Nat) :
    (t.upsert hash key range fresh f).1.read r = t.read r := by
  rw [read, read, bytes_upsert]

/-- **Interning gives a range that reads the key**, inside the arena, and changes
neither view of the table. -/
theorem intern_spec (h : t.Valid hash) (key : Octets) :
    (t.intern hash key).1.Valid hash ∧
    (t.intern hash key).1.read (t.intern hash key).2 = key ∧
    (t.intern hash key).2.1 + (t.intern hash key).2.2 ≤ (t.intern hash key).1.bytes.length ∧
    (t.intern hash key).2.2 = key.length ∧
    (t.intern hash key).1.keys = t.keys ∧
    ∀ k, (t.intern hash key).1.get hash k = t.get hash k := by
  rw [intern]
  cases hfind : t.find hash key with
  | some entry =>
    obtain ⟨hmem, hkey⟩ := (find_eq_some h).mp hfind
    have hin := h.within entry hmem
    refine ⟨h, hkey, hin, ?_, rfl, fun k => rfl⟩
    rw [← hkey, keyOf, read, List.length_take, List.length_drop]
    dsimp only
    omega
  | none =>
    have hkeyOf : ∀ entry ∈ t.entries,
        ({ t with bytes := t.bytes ++ key } : ArenaTable V).keyOf entry = t.keyOf entry :=
      fun entry hmem => read_append (h.within entry hmem) key
    have hkeys : ({ t with bytes := t.bytes ++ key } : ArenaTable V).keys = t.keys :=
      List.map_congr_left hkeyOf
    have hvalid : ({ t with bytes := t.bytes ++ key } : ArenaTable V).Valid hash := by
      refine ⟨fun entry hmem => ?_, fun entry hmem => ?_, by rw [hkeys]; exact h.nodup⟩
      · rw [hkeyOf entry hmem]
        exact h.hashed entry hmem
      · have := h.within entry hmem
        show entry.off + entry.len ≤ (t.bytes ++ key).length
        rw [List.length_append]
        omega
    refine ⟨hvalid, ?_, ?_, rfl, hkeys, fun k => ?_⟩
    · show ((t.bytes ++ key).drop t.bytes.length).take key.length = key
      rw [List.drop_left, List.take_length]
    · show t.bytes.length + key.length ≤ (t.bytes ++ key).length
      rw [List.length_append]
    · apply Option.ext
      intro value
      rw [get_eq_some hvalid, get_eq_some h]
      refine exists_congr fun entry => and_congr_right fun hmem => ?_
      rw [hkeyOf entry hmem]

end Laws

end ArenaTable

end Rdns.Lib
