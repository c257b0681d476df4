import TensorCast.Window.Execute
import TensorCast.Window.MergeSpec

/-!
# Execution delivers the plan

A run is followed by what it has asked the sink to write: the writes that were carried out, and the
transfers that are pending, with the bytes that their slots hold now.  Carrying out a transfer moves
bytes from the second to the first.  A window goes into a slot that no pending transfer uses: a slot
goes back to the buffer only after its transfers were waited for.
-/

namespace TensorCast.Window

open Core Lib ByteRange Source Memory Sink List

/-! ## What was asked of the sink -/

namespace ExecState

/-- What the pending transfers will write, if the slots stay as they are. -/
def promised (s : ExecState) : List (ℕ × UInt8) :=
  written (s.pending.map (Transfer.write s.slots))

/-- What was asked of the sink so far. -/
def asked (s : ExecState) : List (ℕ × UInt8) := written s.writes ++ s.promised

/-- The two states differ by destination bytes that were asked of the sink between them. -/
def Asks (s s' : ExecState) (cells : List (ℕ × UInt8)) : Prop :=
  s'.asked.Perm (s.asked ++ cells)

lemma Asks.refl (s : ExecState) : s.Asks s [] := by
  rw [Asks, append_nil]

lemma Asks.trans {s s' s'' : ExecState} {cells cells' : List (ℕ × UInt8)} (h : s.Asks s' cells)
    (h' : s'.Asks s'' cells') : s.Asks s'' (cells ++ cells') := by
  rw [Asks, ← append_assoc]
  exact Perm.trans h' (h.append_right _)

end ExecState

open ExecState

/-! ## Transfers -/

/-- Between the two states only transfers were carried out, those with the given handles among
them. -/
structure Settles (handles : List ℕ) (s s' : ExecState) : Prop where
  asks : s.Asks s' []
  reads : s'.reads = s.reads
  slots : s'.slots = s.slots
  pending : ∀ t ∈ s'.pending, t ∈ s.pending ∧ t.handle ∉ handles

lemma settles_carryOut (p : Transfer → Bool) (s : ExecState) (handles : List ℕ)
    (hp : ∀ t, t.handle ∈ handles → p t = true) : Settles handles s (carryOut p s) where
  asks := by
    have hperm := (filter_append_perm p s.pending).map (Transfer.write s.slots)
    rw [Asks, append_nil, asked, promised, carryOut, written_append,
      append_assoc, ← written_append, ← map_append]
    exact (hperm.flatMap_right _).append_left _
  reads := rfl
  slots := rfl
  pending t ht := by
    obtain ⟨hmem, hnot⟩ := mem_filter.mp ht
    refine ⟨hmem, fun hhandle => ?_⟩
    rw [hp t hhandle] at hnot
    simp at hnot

variable (sink : PositionedSink)

lemma settles_settle (s : ExecState) : Settles [] s (settle sink s) :=
  settles_carryOut _ s [] fun _ h => absurd h not_mem_nil

lemma settles_waitHandles (handles : List ℕ) :
    ∀ s, Settles handles s (waitHandles sink handles s).2 := by
  induction handles with
  | nil => exact fun s => ⟨.refl s, rfl, rfl, fun t ht => ⟨ht, not_mem_nil⟩⟩
  | cons handle rest ih =>
    intro s
    have hfirst : Settles [handle] s (carryOut (fun t => t.handle = handle) s) :=
      settles_carryOut _ s _ fun t ht => by simpa using ht
    have hrest := ih (carryOut (fun t => t.handle = handle) s)
    refine ⟨hfirst.asks.trans hrest.asks, hrest.reads, hrest.slots, fun t ht => ?_⟩
    obtain ⟨hmem, hnot⟩ := hrest.pending t ht
    obtain ⟨hmem', hnot'⟩ := hfirst.pending t hmem
    refine ⟨hmem', ?_⟩
    rw [mem_cons, not_or]
    exact ⟨fun h => hnot' (mem_singleton.mpr h), hnot⟩

/-! ## Synchronous writes -/

/-- Between the two states the sink was written to. -/
structure Writes (s s' : ExecState) : Prop where
  reads : s'.reads = s.reads
  slots : s'.slots = s.slots
  pending : s'.pending = s.pending

lemma Writes.trans {s s' s'' : ExecState} (h : Writes s s') (h' : Writes s' s'') : Writes s s'' :=
  ⟨h'.reads.trans h.reads, h'.slots.trans h.slots, h'.pending.trans h.pending⟩

/-- The sink was written to, and if that went well it was asked for the given bytes. -/
structure Writing (cells : List (ℕ × UInt8)) (s : ExecState) (r : StatusOr Unit × ExecState) :
    Prop where
  writes : Writes s r.2
  asks : r.1 = .ok () → s.Asks r.2 cells

namespace Writing

variable {cells cells' : List (ℕ × UInt8)} {s s' : ExecState}

lemma nil (s : ExecState) : Writing [] s (.ok (), s) := ⟨⟨rfl, rfl, rfl⟩, fun _ => .refl s⟩

lemma of_error {status : Status} (h : Writing cells s (.error status, s')) :
    Writing cells' s (.error status, s') := ⟨h.writes, nofun⟩

lemma append {r : StatusOr Unit × ExecState} (h : Writing cells s (.ok (), s'))
    (h' : Writing cells' s' r) : Writing (cells ++ cells') s r :=
  ⟨h.writes.trans h'.writes, fun hok => (h.asks rfl).trans (h'.asks hok)⟩

end Writing

lemma writing_writeAt (offset : UInt64) (data : List UInt8)
    (s : ExecState) :
    Writing (SinkWrite.mk offset data).cells s (writeAt sink offset data s) := by
  refine ⟨⟨rfl, rfl, rfl⟩, fun _ => ?_⟩
  rw [Asks, asked, asked, writeAt, written_append, append_assoc, append_assoc]
  refine Perm.append_left _ (perm_append_comm.trans (.of_eq ?_))
  simp [promised, written]

def Holds (target : ℕ → UInt8) (window : SourceWindow) (buffer : ℕ → UInt8) : Prop :=
  ∀ sl ∈ window.slices, ∀ k < sl.length.toNat,
    buffer ((sl.srcOffset - window.srcOffset).toNat + k) = target (sl.dstOffset.toNat + k)

section Slices

variable {target : ℕ → UInt8} {window : SourceWindow} (sink : PositionedSink)
  {slices : List WindowSlice}

lemma writeSlices_spec {buffer : ℕ → UInt8}
    (hbuffer : ∀ sl ∈ slices, ∀ k < sl.length.toNat,
      buffer ((sl.srcOffset - window.srcOffset).toNat + k) = target (sl.dstOffset.toNat + k)) :
    ∀ s, Writing (slices.flatMap (·.along (cellOf target))) s
      (writeSlices sink window buffer slices s) := by
  induction slices with
  | nil => exact .nil
  | cons sl rest ih =>
    intro s
    obtain ⟨hsl, hrest⟩ := forall_mem_cons.mp hbuffer
    have hwrite := writing_writeAt sink sl.dstOffset
      (slice buffer (sl.srcOffset - window.srcOffset).toNat sl.length.toNat) s
    rw [cells_slice hsl] at hwrite
    rw [writeSlices]
    split
    · rename_i status s' h
      rw [h] at hwrite
      exact hwrite.of_error
    · rename_i s' h
      rw [h] at hwrite
      exact hwrite.append (ih hrest s')

/-- The state after requests for the slices of a window that lies in a slot. -/
structure Issues (slotId : ℕ) (handles : List ℕ) (s s' : ExecState) : Prop where
  reads : s'.reads = s.reads
  slots : s'.slots = s.slots
  pending : ∀ t ∈ s'.pending, t ∈ s.pending ∨ t.slotId = slotId ∧ t.handle ∈ handles

lemma issueSlices_spec {slotId : ℕ} :
    ∀ (handles : List ℕ) (s : ExecState),
      (∀ sl ∈ slices, ∀ k < sl.length.toNat,
        s.slots slotId ((sl.srcOffset - window.srcOffset).toNat + k) =
          target (sl.dstOffset.toNat + k)) →
      ∃ result handles' s', issueSlices sink window slotId slices handles s =
          (result, handles', s') ∧
        handles ⊆ handles' ∧ Issues slotId handles' s s' ∧
        (result = .ok () → s.Asks s' (slices.flatMap (·.along (cellOf target)))) := by
  induction slices with
  | nil =>
    intro handles s _
    exact ⟨.ok (), handles, s, rfl, Subset.refl _, ⟨rfl, rfl, fun t ht => .inl ht⟩,
      fun _ => .refl s⟩
  | cons sl rest ih =>
    intro handles s hslots
    obtain ⟨hsl, hrest⟩ := forall_mem_cons.mp hslots
    cases haccept : sink.writeAtAsync s.tick sl.dstOffset sl.length with
    | error status =>
      refine ⟨.error status, handles, { s with tick := s.tick + 1 }, ?_, Subset.refl _,
        ⟨rfl, rfl, fun t ht => .inl ht⟩, nofun⟩
      rw [issueSlices, haccept]
    | ok =>
      let transfer : Transfer :=
        { handle := s.tick, slotId := slotId, srcOffset := sl.srcOffset - window.srcOffset
          dstOffset := sl.dstOffset, bytes := sl.length }
      let s₁ : ExecState := { s with tick := s.tick + 1, pending := s.pending ++ [transfer] }
      obtain ⟨result, handles', s', heq, hsub, hissue, hasks⟩ := ih (handles ++ [s.tick]) s₁ hrest
      have hfirst : s.Asks s₁ (sl.along (cellOf target)) := by
        have hcells : (transfer.write s.slots).cells = sl.along (cellOf target) := cells_slice hsl
        rw [Asks, asked, asked, ← hcells]
        simp [promised, written, s₁]
      refine ⟨result, handles', s', ?_, fun a ha => hsub (mem_append_left _ ha),
        ⟨hissue.reads, hissue.slots, fun t ht => ?_⟩, fun hok => hfirst.trans (hasks hok)⟩
      · rw [issueSlices, haccept]
        exact heq
      · rcases hissue.pending t ht with hmem | hmem
        · rcases mem_append.mp hmem with hmem | hmem
          · exact .inl hmem
          · rw [mem_singleton.mp hmem]
            exact .inr ⟨rfl, hsub (by simp [transfer])⟩
        · exact .inr hmem

end Slices

/-! ## Reading a window -/

section Read

variable {sources : List BaseSource} {contents : ℕ → ℕ → UInt8} {target : ℕ → UInt8}
  {window : SourceWindow}

lemma holds_fill {content buffer : ℕ → UInt8} (hok : WindowOk contents target window)
    {data : List UInt8} (hcontent : contents window.sourceIndex.toNat = content)
    (hdata : data = slice content window.srcOffset.toNat window.length.toNat) :
    Holds target window (fill data buffer) := by
  intro sl hsl k hk
  have hin := hok.within.inside hsl
  have hoff : (sl.srcOffset - window.srcOffset).toNat =
      sl.srcOffset.toNat - window.srcOffset.toNat := toNat_sub_of_le hin.1
  rw [hdata, fill_slice (by omega), (hok.carries sl hsl).bytes k hk, hcontent]
  congr 1
  omega

/-- A window is read with one request.  If that succeeds, a buffer that takes the bytes holds the
slices. -/
lemma readWindow_spec (hex : ExactSources sources contents)
    (hin : InSource sources window.sourceIndex (window.srcOffset.toNat + window.length.toNat))
    (hok : WindowOk contents target window) (s : ExecState) :
    ∃ result tick, readWindow sources window s =
        some (result, { s with tick := tick, reads := s.reads ++ [window.read] }) ∧
      ∀ data, result = .ok data → ∀ buffer, Holds target window (fill data buffer) := by
  obtain ⟨source, hsource, -⟩ := hin
  rw [readWindow, hsource]
  simp only
  cases hread : source.readAt s.tick window.srcOffset window.length with
  | error status => exact ⟨.error status, s.tick + 1, rfl, fun data h => by simp at h⟩
  | ok data =>
    by_cases hlen : data.length ≠ window.length.toNat
    · exact ⟨_, s.tick + 1, if_pos hlen, fun data h => by simp at h⟩
    · refine ⟨.ok data, s.tick + 1, if_neg hlen, fun data' h buffer => ?_⟩
      cases h
      rw [not_not] at hlen
      have hdata := (hex _ source hsource).read _ _ _ _ hread
      rw [hlen] at hdata
      exact holds_fill hok rfl hdata

end Read

/-! ## Padding -/

section Padding

variable {target : ℕ → UInt8} (sink : PositionedSink) {zeroChunk : UInt64}

lemma replicate_eq_slice (n a : ℕ) : List.replicate n (0 : UInt8) = slice (fun _ => 0) a n := by
  simp [slice]

/-- The loop over the chunks of a segment; a round shortens what remains. -/
lemma writePad_spec (hchunk : zeroChunk ≠ 0) {fuel : ℕ} :
    ∀ (cursor remaining : UInt64) (s : ExecState), remaining.toNat ≤ fuel →
      cursor.toNat + remaining.toNat < 2 ^ 64 →
      (∀ k < remaining.toNat, target (cursor.toNat + k) = 0) →
      Writing (slice (cellOf target) cursor.toNat remaining.toNat) s
        (writePad sink zeroChunk fuel cursor remaining s) := by
  have hchunk' := toNat_pos hchunk
  induction fuel with
  | zero =>
    intro cursor remaining s hfuel _ _
    rw [Nat.le_zero.mp hfuel]
    exact .nil s
  | succ fuel ih =>
    intro cursor remaining s hfuel hfits hzero
    rw [writePad]
    by_cases h0 : remaining = 0
    · rw [h0]
      exact .nil s
    · rw [if_neg h0]
      have hmin : (min remaining zeroChunk).toNat = min remaining.toNat zeroChunk.toNat :=
        UInt64.toNat_min _ _
      generalize min remaining zeroChunk = chunk at hmin ⊢
      have hzeros : (SinkWrite.mk cursor (replicate chunk.toNat 0)).cells =
          slice (cellOf target) cursor.toNat chunk.toNat := by
        rw [replicate_eq_slice _ 0]
        exact cells_slice fun k hk => (hzero k (by omega)).symm
      have hwrite := writing_writeAt sink cursor (replicate chunk.toNat 0) s
      rw [hzeros] at hwrite
      simp only
      split
      · rename_i status s' h
        rw [h] at hwrite
        exact hwrite.of_error
      · rename_i s' h
        rw [h] at hwrite
        have hnext : (cursor + chunk).toNat = cursor.toNat + chunk.toNat :=
          toNat_add_of_lt (by omega)
        have hleft : (remaining - chunk).toNat = remaining.toNat - chunk.toNat :=
          toNat_sub_of_le (by omega)
        have hrest := ih (cursor + chunk) (remaining - chunk) s' (by omega) (by omega)
          fun k hk => by
            rw [hnext, add_assoc]
            exact hzero _ (by omega)
        rw [hnext, hleft] at hrest
        rw [← slice_append (m := chunk.toNat) (by omega)]
        exact hwrite.append hrest

lemma writePads_spec (hchunk : zeroChunk ≠ 0) {pads : List ByteRangeSegment}
    (hpads : ∀ pad ∈ pads, PadOk target pad) :
    ∀ s, Writing
      (pads.flatMap fun pad => slice (cellOf target) pad.dstOffset.toNat pad.length.toNat) s
      (writePads sink zeroChunk pads s) := by
  induction pads with
  | nil => exact .nil
  | cons pad rest ih =>
    intro s
    obtain ⟨hpad, hrest⟩ := forall_mem_cons.mp hpads
    have hwrite := writePad_spec sink hchunk pad.dstOffset pad.length s le_rfl hpad.fits hpad.bytes
    rw [writePads]
    split
    · rename_i status s' h
      rw [h] at hwrite
      exact hwrite.of_error
    · rename_i s' h
      rw [h] at hwrite
      exact hwrite.append (ih hrest s')

end Padding

/-! ## Windows without pinned buffers -/

section Windows

variable (sources : List BaseSource) (contents : ℕ → ℕ → UInt8) (target : ℕ → UInt8)

/-- A window that can be read and carries the right bytes. -/
structure Readable (w : SourceWindow) : Prop where
  ok : WindowOk contents target w
  inside : InSource sources w.sourceIndex (w.srcOffset.toNat + w.length.toNat)

/-- A run over windows reads them in order, each at most once, and if it succeeds it has asked for
all of their bytes. -/
structure Executes (windows : List SourceWindow) (s : ExecState) (result : StatusOr Unit)
    (s' : ExecState) : Prop where
  reads : ∃ done, done <+: windows ∧ s'.reads = s.reads ++ done.map SourceWindow.read
  asks : result = .ok () → s.Asks s' (along (cellOf target) windows)

variable {sources contents target} {rest : List SourceWindow}

lemma Executes.of_error {window : SourceWindow} {s s' : ExecState}
    {status : Status} (hreads : s'.reads = s.reads ++ [window.read]) :
    Executes target (window :: rest) s (.error status) s' where
  reads := ⟨[window], by simp, by simpa using hreads⟩
  asks h := by simp at h

lemma Executes.cons {window : SourceWindow} {s s₁ s' : ExecState}
    {result : StatusOr Unit} (hreads : s₁.reads = s.reads ++ [window.read])
    (hasks : s.Asks s₁ (window.slices.flatMap (·.along (cellOf target))))
    (h : Executes target rest s₁ result s') :
    Executes target (window :: rest) s result s' where
  reads := by
    obtain ⟨done, hdone, hreads'⟩ := h.reads
    refine ⟨window :: done, cons_prefix_cons.mpr ⟨rfl, hdone⟩, ?_⟩
    rw [hreads', hreads, append_assoc]
    rfl
  asks hok := hasks.trans (h.asks hok)

lemma executeUnpinned_spec (hex : ExactSources sources contents) (sink : PositionedSink)
    {windows : List SourceWindow} (hwindows : ∀ w ∈ windows, Readable sources contents target w) :
    ∀ s, ∃ result s', executeUnpinned sources sink windows s = some (result, s') ∧
      s'.pending = s.pending ∧ Executes target windows s result s' := by
  induction windows with
  | nil => exact fun s => ⟨.ok (), s, rfl, rfl, ⟨[], by simp, by simp⟩, fun _ => .refl s⟩
  | cons window rest ih =>
    intro s
    obtain ⟨hwindow, hrest⟩ := forall_mem_cons.mp hwindows
    obtain ⟨result, tick, hread, hholds⟩ := readWindow_spec hex hwindow.inside hwindow.ok s
    rw [executeUnpinned, hread]
    cases result with
    | error status => exact ⟨_, _, rfl, rfl, .of_error rfl⟩
    | ok data =>
      simp only
      obtain ⟨hwrites, hasks⟩ := writeSlices_spec sink (hholds data rfl fun _ => 0)
        { s with tick := tick, reads := s.reads ++ [window.read] }
      split
      · rename_i status s₁ h
        rw [h] at hwrites
        exact ⟨_, _, rfl, hwrites.pending, .of_error hwrites.reads⟩
      · rename_i s₁ h
        rw [h] at hwrites hasks
        obtain ⟨result, s', heq, hpending, hexec⟩ := ih hrest s₁
        exact ⟨result, s', heq, hpending.trans hwrites.pending,
          .cons hwrites.reads (hasks rfl) hexec⟩

end Windows

end TensorCast.Window
