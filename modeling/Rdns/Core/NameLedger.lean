import Rdns.Core.Chains

/-!
# Rdns — The compressor over one buffer

`NameCompressor` of `rdns-core/src/compression.rs` again, with two things that
`Rdns.Core.Compression` leaves out. The ranges of the arena are kept in 32 bits
(`recordAsU32`), as `Suffix` has them: the arena only grows, a rewind included, so
a table that is rewound often enough outgrows them. And every name that has gone
out is written down next to the table (`Ledger`), with where it stands: nothing
reads these, they are what the results speak about.
-/

namespace Rdns.Core

open Rdns.Lib

/-! ## Ledgers -/

def asU32 (n : Nat) : Nat := n % 2 ^ 32

def Suffix.asU32 (s : Suffix) : Suffix :=
  { s with start := Core.asU32 s.start, stop := Core.asU32 s.stop }

def NameCompressor.recordAsU32 (c : NameCompressor) (name : Name) (pos freshEnd : Nat) :
    NameCompressor :=
  if freshEnd > 0 then
    let base := c.arena.length
    let stop := base + name.wire.length
    indexFrom
      { c with
        arena := c.arena ++ name.wire
        seen := c.seen ++
          (freshSuffixes name.wire.length base stop pos freshEnd name.labels).map Suffix.asU32 }
      c.seen.length
  else c

/-- A name that has gone out whole: where it begins, where it ends, and what was
asked for. -/
structure Written where
  start : Nat
  stop : Nat
  name : Name
deriving DecidableEq

structure Ledger where
  table : NameCompressor
  names : List Written
deriving DecidableEq

abbrev LedgerM := WriteM Ledger WireError

namespace Ledger

def put (pos : Nat) (bytes : Octets) : LedgerM Nat :=
  writeBytes outputFull pos bytes

def note (w : Written) : LedgerM Nat := do
  let s ← getState
  setState { s with names := s.names ++ [w] }
  return w.stop

def writeName (name : Name) (pos : Nat) : LedgerM Nat := do
  if name.isRoot then
    let out ← put pos [0]
    note ⟨pos, out, name⟩
  else
    let s ← getState
    let matched := s.table.matchSuffix name.wire.length name.labels
    let freshEnd := freshEndOf name matched
    setState { s with table := s.table.recordAsU32 name pos freshEnd }
    let out ← put pos (name.wire.take freshEnd)
    let out ← match matched with
      | some (_, target) => put out (pointerOctets target)
      | none => put out [0]
    note ⟨pos, out, name⟩

def writeRdata (rtype : Rtype) (rdata : Octets) (pos : Nat) : LedgerM Nat :=
  writeRdataBy writeName rtype rdata pos

def rewind (s : Ledger) (mark : Nat) : Ledger where
  table := s.table.rewind mark
  names := s.names.filter fun w => w.start < mark

end Ledger

/-! ## The casts -/

theorem asU32_of_lt {n : Nat} (h : n < 2 ^ 32) : asU32 n = n := Nat.mod_eq_of_lt h

variable {pos room room' : Nat} {data data' bytes : Octets} {c : NameCompressor} {depth : Nat → Nat}
  {sink : Sink Ledger}

/-- **While the arena is below 2³² octets, the casts change nothing.** -/
theorem NameCompressor.recordAsU32_eq {name : Name} (h : c.arena.length + name.wire.length < 2 ^ 32)
    (pos freshEnd : Nat) :
    c.recordAsU32 name pos freshEnd = c.record name pos freshEnd := by
  have hsame : (freshSuffixes name.wire.length c.arena.length
      (c.arena.length + name.wire.length) pos freshEnd name.labels).map Suffix.asU32
      = freshSuffixes name.wire.length c.arena.length
        (c.arena.length + name.wire.length) pos freshEnd name.labels := by
    refine (List.map_congr_left fun entry hmem => ?_).trans (List.map_id _)
    obtain ⟨own, rest, hlabels, -, -, -, rfl⟩ := mem_freshSuffixes hmem
    have hlen : encodedLen rest ≠ 0 := by
      rw [encodedLen]
      omega
    have hbound : name.wire.length - encodedLen rest < name.wire.length := by
      have := Name.length_wire name
      rw [encodedLen] at this
      omega
    simp only [Suffix.asU32, id_eq]
    rw [asU32_of_lt h, asU32_of_lt (by omega)]
  rw [recordAsU32, record]
  simp only [hsame]

/-! ## Reading by pointers -/

theorem placedAt_mono (h : PlacedAt data pos bytes) (hextends : data <+: data') :
    PlacedAt data' pos bytes := by
  obtain ⟨tail, htail⟩ := h
  obtain ⟨more, rfl⟩ := hextends
  exact ⟨tail ++ more.drop (pos - data.length), by
    rw [List.drop_append, htail, List.append_assoc]⟩

/-- **Octets written later change no name that is there.** -/
theorem Resolves.mono {off hops : Nat} {labels : List Octets}
    (h : Resolves data off bytes labels hops) (hextends : data <+: data') :
    Resolves data' off bytes labels hops := by
  induction h with
  | plain placed valid => exact .plain (placedAt_mono placed hextends) valid
  | chained placed valid backwards reachable _ ih =>
    exact .chained (placedAt_mono placed hextends) valid backwards reachable ih

/-- **The octets at a place spell one name.** -/
theorem Resolves.labels_unique {bytes' : Octets} {off hops hops' : Nat}
    {labels labels' : List Octets} (h : Resolves data off bytes labels hops)
    (h' : Resolves data off bytes' labels' hops') : labels = labels' := by
  induction h generalizing bytes' labels' hops' with
  | plain placed valid =>
    have hread := DName.tryFromBytes_wireOf valid
    cases h' with
    | plain placed' valid' =>
      have hread' := DName.tryFromBytes_wireOf valid'
      have hsame := placed.drop.symm.trans placed'.drop
      have heq := (hread _).symm.trans (hsame ▸ hread' _)
      cases heq
      rfl
    | chained placed' valid' backwards' reachable' rest' =>
      have hread' := DName.tryFromBytes_chained valid' reachable'
      have hsame := placed.drop.symm.trans placed'.drop
      have heq := (hread _).symm.trans (hsame ▸ hread' _)
      cases heq
  | chained placed valid backwards reachable rest ih =>
    have hread := DName.tryFromBytes_chained valid reachable
    cases h' with
    | plain placed' valid' =>
      have hread' := DName.tryFromBytes_wireOf valid'
      have hsame := placed.drop.symm.trans placed'.drop
      have heq := (hread _).symm.trans (hsame ▸ hread' _)
      cases heq
    | chained placed' valid' backwards' reachable' rest' =>
      have hread' := DName.tryFromBytes_chained valid' reachable'
      have hsame := placed.drop.symm.trans placed'.drop
      have heq := (hread _).symm.trans (hsame ▸ hread' _)
      have hparts := DName.mk.inj (Prod.mk.inj (Except.ok.inj heq)).1
      have htarget := UInt16.toNat_inj.mp (Option.some.inj hparts.2)
      rw [hparts.1, ih (htarget ▸ rest')]

/-! ## What a ledger says -/

/-- What `write_name` may emit for `name` at `start`: all of it, or some of its labels
and a pointer, to a place before `start` that a pointer reaches. -/
def Emitted (name : Name) (start : Nat) (octets : Octets) : Prop :=
  octets = name.wire ∨ ∃ own rest target, name.labels = own ++ rest ∧
    octets = labelsOctets own ++ pointerOctets target ∧
    target.toNat < start ∧ target.toNat ≤ POINTER_MASK

/-- The name stands in `data` where it was written, and following its pointers
spells it again, up to case. -/
def Written.ReadsBack (w : Written) (data : Octets) : Prop :=
  ∃ octets hops, ∃ shown : Name, w.stop = w.start + octets.length ∧
    Emitted w.name w.start octets ∧ Resolves data w.start octets shown.labels hops ∧
    shown.same w.name = true

theorem Written.ReadsBack.mono {w : Written} (h : w.ReadsBack data) (hextends : data <+: data') :
    w.ReadsBack data' := by
  obtain ⟨octets, hops, shown, hstop, hemitted, hresolves, hsame⟩ := h
  exact ⟨octets, hops, shown, hstop, hemitted, hresolves.mono hextends, hsame⟩

theorem TableOk.mono (h : TableOk data pos depth c) (hextends : data <+: data') :
    TableOk data' pos depth c := by
  intro entry hmem
  obtain ⟨hstop, hoffset, hreach, labels, shown, bytes, hoctets, hvalid, hres, hshown⟩ :=
    h entry hmem
  exact ⟨hstop, hoffset, hreach, labels, shown, bytes, hoctets, hvalid, hres.mono hextends, hshown⟩

theorem TableOk.of_subset {c' : NameCompressor} (h : TableOk data pos depth c)
    (hseen : c'.seen ⊆ c.seen) (harena : c.arena <+: c'.arena) : TableOk data pos depth c' := by
  obtain ⟨more, hmore⟩ := harena
  have harena := hmore.symm
  intro entry hmem
  obtain ⟨hstop, hoffset, hreach, labels, shown, bytes, hoctets, hrest⟩ := h entry (hseen hmem)
  refine ⟨by rw [harena, List.length_append]; omega, hoffset, hreach, labels, shown, bytes, ?_,
    hrest⟩
  rw [NameCompressor.octetsOf_append harena hstop, hoctets]

def NameCompressor.below (c : NameCompressor) (mark : Nat) : NameCompressor :=
  { c with seen := c.seen.filter fun s => s.offset.toNat < mark }

/-- How the table is kept: by offset, and every index entry names an entry. -/
structure NameCompressor.Kept (c : NameCompressor) : Prop where
  ordered : c.seen.Pairwise fun a b => a.offset.toNat < b.offset.toNat
  indexed : ∀ e ∈ c.index, e.2 < c.seen.length

/-- Everything the ledger says about the octets before `mark` is so. -/
structure SoundBelow (sink : Sink Ledger) (mark : Nat) : Prop where
  table : ∃ depth, TableOk (sink.buf.take mark) mark depth (sink.state.table.below mark)
  names : ∀ w ∈ sink.state.names, w.start < mark → w.ReadsBack (sink.buf.take mark)

/-- The next write is at `pos`, and all there is stands before it. -/
structure Ready (sink : Sink Ledger) (pos : Nat) : Prop where
  kept : sink.state.table.Kept
  table : ∃ depth, TableOk (sink.buf.take pos) pos depth sink.state.table
  names : ∀ w ∈ sink.state.names, w.ReadsBack (sink.buf.take pos)

theorem Ready.soundBelow (h : Ready sink pos) : SoundBelow sink pos := by
  refine ⟨?_, fun w hmem _ => h.names w hmem⟩
  obtain ⟨depth, htable⟩ := h.table
  exact ⟨depth, htable.of_subset List.filter_sublist.subset List.prefix_rfl⟩

/-- What has become of a sink once something was written from `pos` on, whether it
went well or not: at most `room` octets more in the arena, and nothing before `pos`
touched. -/
structure Onward (room pos : Nat) (before after : Sink Ledger) : Prop where
  buf : Lib.Kept pos before.buf after.buf
  arena : ∃ more, more.length ≤ room ∧
    after.state.table.arena = before.state.table.arena ++ more
  seen : ∃ fresh, after.state.table.seen = before.state.table.seen ++ fresh ∧
    ∀ e ∈ fresh, pos ≤ e.offset.toNat
  kept : after.state.table.Kept
  names : ∃ fresh, after.state.names = before.state.names ++ fresh ∧ ∀ w ∈ fresh, pos ≤ w.start
  reads : ∀ w ∈ after.state.names, w.ReadsBack after.buf

theorem Onward.trans {pos' : Nat} {a b c : Sink Ledger} (h : Onward room pos a b)
    (hpos : pos ≤ pos') (h' : Onward room' pos' b c) : Onward (room + room') pos a c := by
  obtain ⟨more, hmore, harena⟩ := h.arena
  obtain ⟨more', hmore', harena'⟩ := h'.arena
  obtain ⟨fresh, hseen, hfresh⟩ := h.seen
  obtain ⟨fresh', hseen', hfresh'⟩ := h'.seen
  obtain ⟨names, hnames, hat⟩ := h.names
  obtain ⟨names', hnames', hat'⟩ := h'.names
  refine ⟨h.buf.trans (h'.buf.mono hpos), ⟨more ++ more', ?_, ?_⟩, ⟨fresh ++ fresh', ?_, ?_⟩,
    h'.kept, ⟨names ++ names', ?_, ?_⟩, h'.reads⟩
  · rw [List.length_append]
    omega
  · rw [harena', harena, List.append_assoc]
  · rw [hseen', hseen, List.append_assoc]
  · grind
  · rw [hnames', hnames, List.append_assoc]
  · grind

/-- **What stands before a mark stays sound** through whatever is written past it. -/
theorem SoundBelow.onward {mark : Nat} {before after : Sink Ledger} (h : SoundBelow before mark)
    (hmark : mark ≤ pos) (ho : Onward room pos before after) :
    SoundBelow after mark := by
  have hbuf : after.buf.take mark = before.buf.take mark := (ho.buf.mono hmark).2
  refine ⟨?_, fun w hmem hlt => ?_⟩
  · obtain ⟨depth, htable⟩ := h.table
    obtain ⟨more, -, harena⟩ := ho.arena
    obtain ⟨fresh, hseen, hfresh⟩ := ho.seen
    rw [hbuf]
    have hsubset : (after.state.table.below mark).seen ⊆ (before.state.table.below mark).seen := by
      intro entry hmem
      obtain ⟨hmem, hlt⟩ := List.mem_filter.mp hmem
      rw [hseen] at hmem
      rcases List.mem_append.mp hmem with hold | hnew
      · exact List.mem_filter.mpr ⟨hold, hlt⟩
      · have := hfresh entry hnew
        have := of_decide_eq_true hlt
        omega
    exact ⟨depth, htable.of_subset hsubset ⟨more, harena.symm⟩⟩
  · obtain ⟨fresh, hnames, hfresh⟩ := ho.names
    rw [hbuf]
    rw [hnames] at hmem
    rcases List.mem_append.mp hmem with hold | hnew
    · exact h.names w hold hlt
    · have := hfresh w hnew
      omega

/-! ## How the table is kept -/

namespace NameCompressor

variable {c : NameCompressor} {pos : Nat}

theorem note_indexed (h : ∀ e ∈ c.index, e.2 < c.seen.length) (i : Nat) :
    ∀ e ∈ (c.note i).index, e.2 < c.seen.length := by
  unfold note
  split
  · exact h
  · grind

theorem foldl_note_indexed (indices : List Nat) (h : ∀ e ∈ c.index, e.2 < c.seen.length) :
    ∀ e ∈ (indices.foldl note c).index, e.2 < c.seen.length := by
  induction indices generalizing c with
  | nil => exact h
  | cons i rest ih =>
    have hstep := note_indexed h i
    rw [← note_seen c i] at hstep ⊢
    exact ih hstep

theorem indexFrom_indexed (h : ∀ e ∈ c.index, e.2 < c.seen.length) (first : Nat) :
    ∀ e ∈ (c.indexFrom first).index, e.2 < c.seen.length := by
  unfold indexFrom
  split
  · split
    · exact h
    · exact foldl_note_indexed _ h
  · exact foldl_note_indexed _ h

theorem freshSuffixes_ordered {wireLen base stop freshEnd : Nat} {labels : List Octets}
    (hlen : encodedLen labels ≤ wireLen) (hvalid : ∀ l ∈ labels, ValidLabel l) :
    (freshSuffixes wireLen base stop pos freshEnd labels).Pairwise fun a b =>
      a.offset.toNat < b.offset.toNat := by
  induction labels with
  | nil => exact .nil
  | cons label tail ih =>
    have hpos := (hvalid label (List.mem_cons_self ..)).1
    rw [encodedLen_cons] at hlen
    have hrest := ih (by omega) fun l hl => hvalid l (List.mem_cons_of_mem _ hl)
    unfold freshSuffixes
    simp only
    split
    · exact .nil
    · split
      · rename_i hreach
        refine List.pairwise_cons.mpr ⟨fun entry hmem => ?_, hrest⟩
        obtain ⟨own, rest, rfl, -, -, hreach', rfl⟩ := mem_freshSuffixes hmem
        rw [encodedLen_append] at hlen
        rw [encodedLen_cons, encodedLen_append] at hreach ⊢
        unfold POINTER_MASK at hreach hreach'
        simp only
        rw [toNat_ofNat_u16 (by omega), toNat_ofNat_u16 (by omega)]
        omega
      · exact hrest

theorem le_offset_of_mem_freshSuffixes {wireLen base stop freshEnd : Nat} {labels : List Octets}
    {entry : Suffix} (h : entry ∈ freshSuffixes wireLen base stop pos freshEnd labels) :
    pos ≤ entry.offset.toNat := by
  obtain ⟨own, rest, -, -, -, hreach, rfl⟩ := mem_freshSuffixes h
  unfold POINTER_MASK at hreach
  simp only
  rw [toNat_ofNat_u16 (by omega)]
  omega

theorem record_onward (c : NameCompressor) (name : Name) (pos freshEnd : Nat) :
    (∃ more, more.length ≤ name.wire.length ∧
        (c.record name pos freshEnd).arena = c.arena ++ more) ∧
      ∃ fresh, (c.record name pos freshEnd).seen = c.seen ++ fresh ∧
        ∀ e ∈ fresh, pos ≤ e.offset.toNat := by
  unfold record
  split
  · exact ⟨⟨name.wire, le_rfl, indexFrom_arena _ _⟩, _, indexFrom_seen _ _,
      fun _ => le_offset_of_mem_freshSuffixes⟩
  · exact ⟨⟨[], Nat.zero_le _, (List.append_nil _).symm⟩, [], (List.append_nil _).symm,
      by simp⟩

theorem Kept.record (h : c.Kept) (name : Name) (freshEnd : Nat)
    (hbelow : ∀ e ∈ c.seen, e.offset.toNat < pos) : (c.record name pos freshEnd).Kept := by
  unfold NameCompressor.record
  split
  · refine ⟨?_, ?_⟩
    · rw [indexFrom_seen]
      refine List.pairwise_append.mpr ⟨h.ordered, ?_, fun a ha b hb => ?_⟩
      · exact freshSuffixes_ordered (by rw [Name.length_wire]) name.labels_ok
      · have := hbelow a ha
        have := le_offset_of_mem_freshSuffixes hb
        omega
    · rw [indexFrom_seen]
      refine indexFrom_indexed (fun e he => ?_) _
      have := h.indexed e he
      simp only [List.length_append]
      omega
  · exact h

end NameCompressor

/-! ## Running the writers -/

namespace Ledger

def tableAfter (s : Ledger) (name : Name) (pos : Nat) : NameCompressor :=
  if name.isRoot then s.table
  else s.table.recordAsU32 name pos
    (freshEndOf name (s.table.matchSuffix name.wire.length name.labels))

theorem exec_note (w : Written) (s : Ledger) (buf : Octets) :
    exec (note w) ⟨s, buf⟩ = (.ok w.stop, ⟨{ s with names := s.names ++ [w] }, buf⟩) := rfl

theorem exec_put (pos : Nat) (bytes : Octets) (s : Ledger) (buf : Octets) :
    (pos + bytes.length ≤ buf.length ∧
        exec (put pos bytes) ⟨s, buf⟩ = (.ok (pos + bytes.length), ⟨s, splice buf pos bytes⟩)) ∨
      ∃ e, exec (put pos bytes) ⟨s, buf⟩ = (.error e, ⟨s, buf⟩) := by
  by_cases hfit : pos + bytes.length ≤ buf.length
  · exact .inl ⟨hfit, exec_writeBytes_fits hfit⟩
  · exact .inr ⟨_, exec_writeBytes_overflows (by simpa using hfit)⟩

theorem exec_put_put_note (name : Name) (pos : Nat) (a b : Octets) (s : Ledger) (buf : Octets) :
    (pos + (a ++ b).length ≤ buf.length ∧
        exec (put pos a >>= fun out => put out b >>= fun out => note ⟨pos, out, name⟩) ⟨s, buf⟩
          = (.ok (pos + (a ++ b).length),
              ⟨{ s with names := s.names ++ [⟨pos, pos + (a ++ b).length, name⟩] },
                splice buf pos (a ++ b)⟩)) ∨
      ∃ e buf', exec (put pos a >>= fun out => put out b >>= fun out => note ⟨pos, out, name⟩)
          ⟨s, buf⟩ = (.error e, ⟨s, buf'⟩) ∧ Lib.Kept pos buf buf' := by
  rcases exec_put pos a s buf with ⟨hfit, hput⟩ | ⟨e, hput⟩
  · have hroom : (splice buf pos a).length = buf.length := length_splice hfit
    rcases exec_put (pos + a.length) b s (splice buf pos a) with ⟨hfit', hput'⟩ | ⟨e, hput'⟩
    · grind [exec_bind, exec_note, splice_splice]
    · grind [kept_splice, exec_bind]
  · exact .inr ⟨e, buf, by rw [exec_bind, hput], Lib.Kept.refl ..⟩

/-- **What `write_name` does**: with room, its octets, and the name written down;
without, the table is as if it had, and nothing before `pos` is touched. -/
theorem exec_writeName (name : Name) (pos : Nat) (s : Ledger) (buf : Octets) :
    (pos + (nameOctets s.table name).length ≤ buf.length ∧
        exec (writeName name pos) ⟨s, buf⟩
          = (.ok (pos + (nameOctets s.table name).length),
              ⟨⟨s.tableAfter name pos,
                  s.names ++ [⟨pos, pos + (nameOctets s.table name).length, name⟩]⟩,
                splice buf pos (nameOctets s.table name)⟩)) ∨
      ∃ e buf', exec (writeName name pos) ⟨s, buf⟩
          = (.error e, ⟨⟨s.tableAfter name pos, s.names⟩, buf'⟩) ∧ Lib.Kept pos buf buf' := by
  unfold writeName tableAfter
  by_cases hroot : name.isRoot = true
  · rw [if_pos hroot, if_pos hroot]
    have hlabels := Name.isRoot_iff.mp hroot
    have hbytes : nameOctets s.table name = [0] := by
      simp [nameOctets, hlabels, NameCompressor.matchSuffix, Name.wire, wireOf, labelsOctets]
    rw [hbytes]
    rcases exec_put pos [0] s buf with ⟨hfit, hput⟩ | ⟨e, hput⟩
    · exact .inl ⟨hfit, by rw [exec_bind, hput]; rfl⟩
    · exact .inr ⟨e, buf, by rw [exec_bind, hput], Lib.Kept.refl ..⟩
  · rw [if_neg hroot, if_neg hroot, exec_getState_bind]
    simp only
    rw [exec_setState_bind]
    unfold nameOctets
    cases s.table.matchSuffix name.wire.length name.labels with
    | none =>
      have hwire : name.wire = name.wire.take (freshEndOf name none) ++ [0] :=
        Name.wire_eq_take_append name
      have hrun := exec_put_put_note name pos (name.wire.take (freshEndOf name none)) [0]
        ⟨s.table.recordAsU32 name pos (freshEndOf name none), s.names⟩ buf
      rw [← hwire] at hrun
      exact hrun
    | some found => exact exec_put_put_note name pos _ _ _ buf

end Ledger

/-! ## What a write does -/

/-- From a sink that is ready, with `room` octets to spare in the arena: `w` moves on
and leaves the sink ready where it stopped, or it fails and has touched nothing
before where it began. -/
def Writes (room : Nat) (w : Nat → LedgerM Nat) : Prop :=
  ∀ ⦃pos : Nat⦄ ⦃sink : Sink Ledger⦄, Ready sink pos →
    sink.state.table.arena.length + room < 2 ^ 32 →
      (∃ stop after, exec (w pos) sink = (.ok stop, after) ∧ pos ≤ stop ∧
        Onward room pos sink after ∧ Ready after stop) ∨
      ∃ e after, exec (w pos) sink = (.error e, after) ∧ Onward room pos sink after

theorem Ready.reads (h : Ready sink pos) :
    ∀ w ∈ sink.state.names, w.ReadsBack sink.buf := fun w hmem =>
  (h.names w hmem).mono (List.take_prefix ..)

theorem Ready.onward (h : Ready sink pos) : Onward 0 pos sink sink :=
  ⟨Lib.Kept.refl .., ⟨[], le_rfl, (List.append_nil _).symm⟩,
    ⟨[], (List.append_nil _).symm, by simp⟩, h.kept, ⟨[], (List.append_nil _).symm, by simp⟩,
    h.reads⟩

theorem writes_put (bytes : Octets) : Writes 0 fun pos => Ledger.put pos bytes := by
  intro pos sink hready _
  obtain ⟨s, buf⟩ := sink
  rcases Ledger.exec_put pos bytes s buf with ⟨hfit, hput⟩ | ⟨e, hput⟩
  · -- what was there before `pos` is there before the octets
    have hextends : buf.take pos <+: (splice buf pos bytes).take (pos + bytes.length) := by grind [take_splice_end]
    have hnames : ∀ w ∈ s.names, w.ReadsBack ((splice buf pos bytes).take (pos + bytes.length)) :=
      fun w hmem => (hready.names w hmem).mono hextends
    refine .inl ⟨_, _, hput, Nat.le_add_right .., ⟨kept_splice hfit,
      ⟨[], le_rfl, (List.append_nil _).symm⟩, ⟨[], (List.append_nil _).symm, by simp⟩, hready.kept,
      ⟨[], (List.append_nil _).symm, by simp⟩, fun w hmem => (hnames w hmem).mono
        (List.take_prefix ..)⟩, hready.kept, ?_, hnames⟩
    obtain ⟨depth, htable⟩ := hready.table
    exact ⟨depth, (htable.mono hextends).advance (Nat.le_add_right ..)⟩
  · exact .inr ⟨e, _, hput, hready.onward⟩

theorem writes_throw (e : WireError) : Writes 0 fun _ => throw e := by
  intro pos sink hready _
  exact .inr ⟨e, sink, exec_throw e sink, hready.onward⟩

/-- **Sequencing.** -/
theorem Writes.bind {w k : Nat → LedgerM Nat} (hw : Writes room w) (hk : Writes room' k) :
    Writes (room + room') fun pos => w pos >>= k := by
  intro pos sink hready hroom
  rcases hw hready (by omega) with ⟨stop, mid, hexec, hle, honward, hmid⟩ | ⟨e, mid, hexec, honward⟩
  · obtain ⟨more, hmore, harena⟩ := honward.arena
    have hroom' : mid.state.table.arena.length + room' < 2 ^ 32 := by
      rw [harena, List.length_append]
      omega
    rcases hk hmid hroom' with
      ⟨stop', after, hexec', hle', honward', hafter⟩ | ⟨e, after, hexec', honward'⟩
    · refine .inl ⟨stop', after, ?_, hle.trans hle', honward.trans hle honward', hafter⟩
      rw [exec_bind, hexec]
      exact hexec'
    · refine .inr ⟨e, after, ?_, honward.trans hle honward'⟩
      rw [exec_bind, hexec]
      exact hexec'
  · refine .inr ⟨e, mid, by rw [exec_bind, hexec], ?_⟩
    obtain ⟨more, hmore, harena⟩ := honward.arena
    exact { honward with arena := ⟨more, by omega, harena⟩ }

theorem Writes.attempt {α : Type} {x : Except WireError α} {w : α → Nat → LedgerM Nat}
    (h : ∀ a, x = .ok a → Writes room (w a)) :
    Writes room fun pos => attempt x >>= fun a => w a pos := by
  cases x with
  | ok a => exact h a rfl
  | error e =>
    intro pos sink hready _
    have honward := hready.onward
    exact .inr ⟨e, sink, exec_throw e sink,
      { honward with arena := ⟨[], Nat.zero_le _, (List.append_nil _).symm⟩ }⟩

theorem Writes.mono {w : Nat → LedgerM Nat} (h : Writes room w) (hle : room ≤ room') :
    Writes room' w := by
  intro pos sink hready hroom
  have hmore : ∀ after, Onward room pos sink after → Onward room' pos sink after := by
    intro after honward
    obtain ⟨more, hlen, harena⟩ := honward.arena
    exact { honward with arena := ⟨more, by omega, harena⟩ }
  rcases h hready (by omega) with ⟨stop, after, hexec, hpos, honward, hafter⟩ | ⟨e, after, hexec, honward⟩
  · exact .inl ⟨stop, after, hexec, hpos, hmore after honward, hafter⟩
  · exact .inr ⟨e, after, hexec, hmore after honward⟩

theorem Ledger.tableAfter_eq {s : Ledger} {name : Name}
    (h : s.table.arena.length + name.wire.length < 2 ^ 32) (pos : Nat) :
    s.tableAfter name pos = afterName s.table name pos := by
  rw [tableAfter, afterName, NameCompressor.recordAsU32_eq h]

theorem emitted_nameOctets (h : TableOk data pos depth c) (name : Name) :
    Emitted name pos (nameOctets c name) := by
  rcases nameOctets_cases c name with
    ⟨-, hbytes⟩ | ⟨own, rest, target, hlabels, -, -, hlookup, hbytes⟩
  · exact .inl hbytes
  · have hrest : ∀ l ∈ rest, ValidLabel l := fun l hl =>
      name.labels_ok l (by rw [hlabels]; exact List.mem_append_right _ hl)
    obtain ⟨hback, hreach, -⟩ := h.lookup hrest hlookup
    exact .inr ⟨own, rest, target, hlabels, hbytes, hback, hreach⟩

/-- **`write_name`** moves on by a name that reads back, or fails and has touched
nothing before where it began. -/
theorem writeName_writes (name : Name) :
    Writes name.wire.length (Ledger.writeName name) := by
  intro pos sink hready hroom
  obtain ⟨s, buf⟩ := sink
  obtain ⟨depth, htable⟩ := hready.table
  have hnew := Ledger.tableAfter_eq hroom pos
  -- the table goes its way whether or not the octets find room
  have hgrows : (∃ more, more.length ≤ name.wire.length ∧
        (s.tableAfter name pos).arena = s.table.arena ++ more) ∧
      (∃ fresh, (s.tableAfter name pos).seen = s.table.seen ++ fresh ∧
        ∀ e ∈ fresh, pos ≤ e.offset.toNat) ∧ (s.tableAfter name pos).Kept := by
    rw [hnew, afterName]
    split
    · exact ⟨⟨[], Nat.zero_le _, (List.append_nil _).symm⟩,
        ⟨[], (List.append_nil _).symm, by simp⟩, hready.kept⟩
    · obtain ⟨harena, hseen⟩ := s.table.record_onward name pos
        (freshEndOf name (s.table.matchSuffix name.wire.length name.labels))
      exact ⟨harena, hseen, hready.kept.record name _ fun e hmem => (htable e hmem).2.1⟩
  obtain ⟨harena, hseen, hkept⟩ := hgrows
  rcases Ledger.exec_writeName name pos s buf with ⟨hfit, hexec⟩ | ⟨e, buf', hexec, hbuf⟩
  · -- the octets stand right after what was there
    have hbufs : (splice buf pos (nameOctets s.table name)).take
        (pos + (nameOctets s.table name).length) = buf.take pos ++ nameOctets s.table name :=
      take_splice_end (show pos ≤ buf.length by omega)
    have hextends : buf.take pos <+:
        (splice buf pos (nameOctets s.table name)).take (pos + (nameOctets s.table name).length) := by
      rw [hbufs]
      exact List.prefix_append ..
    have hplaced : PlacedAt ((splice buf pos (nameOctets s.table name)).take
        (pos + (nameOctets s.table name).length)) pos (nameOctets s.table name) := by
      have hlen : (buf.take pos).length = pos := by
        rw [List.length_take]
        omega
      rw [hbufs]
      exact ⟨[], by rw [List.append_nil]; exact List.drop_left' hlen⟩
    have htable' := htable.mono hextends
    obtain ⟨shown, hsame, hresolves⟩ := namePlan_resolves htable' hplaced
    have hnames : ∀ w ∈ s.names ++ [⟨pos, pos + (nameOctets s.table name).length, name⟩],
        w.ReadsBack ((splice buf pos (nameOctets s.table name)).take
          (pos + (nameOctets s.table name).length)) := by
      intro w hmem
      rcases List.mem_append.mp hmem with hold | hnow
      · exact (hready.names w hold).mono hextends
      · rw [List.mem_singleton.mp hnow]
        exact ⟨_, _, shown, rfl, emitted_nameOctets htable name, hresolves, hsame⟩
    refine .inl ⟨_, _, hexec, Nat.le_add_right .., ⟨kept_splice hfit, harena, hseen, hkept,
      ⟨_, rfl, ?_⟩, fun w hmem => (hnames w hmem).mono (List.take_prefix ..)⟩, hkept,
      ⟨depthAfter depth pos (nameDepth s.table depth name), ?_⟩, hnames⟩
    · intro w hmem
      rw [List.mem_singleton.mp hmem]
    · simp only
      rw [hnew]
      exact htable'.afterName hplaced
  · -- no room: the table is ahead of the buffer, but only from `pos` on
    refine .inr ⟨e, _, hexec, hbuf, harena, hseen, hkept, ⟨[], (List.append_nil _).symm, by simp⟩,
      fun w hmem => ?_⟩
    have hsame : buf'.take pos = buf.take pos := hbuf.2
    have hback := hready.names w hmem
    rw [← hsame] at hback
    exact hback.mono (List.take_prefix ..)

/-- **`write_rdata`** does the same, by at most the octets of the RDATA. -/
theorem writeRdata_writes (rtype : Rtype) (rdata : Octets) :
    Writes rdata.length (Ledger.writeRdata rtype rdata) := by
  have oneName : ∀ (bytes : Octets) (x : Name × Octets), Name.fromWire bytes = .ok x →
      Writes bytes.length fun pos => Ledger.writeName x.1 pos >>= fun pos => Ledger.put pos x.2 := by
    intro bytes x hread
    have hbytes : bytes = x.1.wire ++ x.2 := Name.fromWire_eq_ok hread
    have hboth := (writeName_writes x.1).bind (writes_put x.2)
    rw [hbytes]
    exact hboth.mono (by rw [List.length_append]; omega)
  unfold Ledger.writeRdata writeRdataBy
  split
  · exact Writes.attempt (oneName rdata)
  split
  · refine Writes.attempt fun x hread => Writes.attempt fun y hread' => ?_
    have hrdata : rdata = x.1.wire ++ x.2 := Name.fromWire_eq_ok hread
    have htwo := (writeName_writes x.1).bind (oneName x.2 y hread')
    exact htwo.mono (by rw [hrdata, List.length_append])
  split
  · split
    · exact (writes_throw _).mono (Nat.zero_le _)
    · have hrest := (writes_put (rdata.take 2)).bind
        (Writes.attempt (w := fun (x : Name × Octets) pos =>
          Ledger.writeName x.1 pos >>= fun pos => Ledger.put pos x.2) (oneName (rdata.drop 2)))
      exact hrest.mono (by rw [List.length_drop]; omega)
  · exact (writes_put rdata).mono (Nat.zero_le _)

end Rdns.Core
