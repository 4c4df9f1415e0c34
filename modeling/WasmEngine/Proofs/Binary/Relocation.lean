import WasmEngine.Proofs.Binary.Shifting

/-!
# Sections at another place

Sections that stand somewhere in a module's bytes stand wherever the same bytes do (`Section.StandsAt.later`). All that
changes are the positions in them (`Section.mapOffsets`): those of the entries of vectors, the offsets of bodies and
their instructions, and where the data of a custom section begins.
-/

namespace WasmEngine

variable {features : Features} {limits : DecodeLimits} {k : Nat}

/-! ### Vectors -/

namespace Decoder

variable {α β : Type} {f : α → β} {d : Decoder α} {d' : Decoder β} {c c₁ c' : Cursor} {entries : List (Nat × α)}

theorem Reads.later (hd : Later k f d d') (h : Reads d c entries c₁) (hc : c.Later k c') :
    ∃ c₁', Reads d' c' (entries.map (Prod.map (· + k) f)) c₁' ∧ c₁.Later k c₁' := by
  induction h generalizing c' with
  | nil => exact ⟨c', .nil, hc⟩
  | cons ha _ ih =>
    obtain ⟨c₂', ha', hc₂⟩ := hd.ok_of hc ha
    obtain ⟨c₁', hrest, hc₁⟩ := ih hc₂
    refine ⟨c₁', ?_, hc₁⟩
    rw [List.map_cons, Prod.map_apply, ← hc.pos]
    exact .cons ha' hrest

theorem ReadsVector.later (hd : Later k f d d') (h : ReadsVector d c entries c₁) (hc : c.Later k c') :
    ∃ c₁', ReadsVector d' c' (entries.map (Prod.map (· + k) f)) c₁' ∧ c₁.Later k c₁' := by
  obtain ⟨c₂, hn, h⟩ := h
  obtain ⟨c₂', hn', hc₂⟩ := Later.count.ok_of hc hn
  obtain ⟨c₁', h', hc₁⟩ := h.later hd hc₂
  exact ⟨c₁', ⟨c₂', by rwa [List.length_map], h'⟩, hc₁⟩

theorem namesIn_later (title : String) (hc : c.Later k c') : namesIn title c' = namesIn title c := by
  unfold namesIn
  split
  · have h := Later.nameSection c c' hc
    generalize nameSection c = r at h
    generalize nameSection c' = r' at h
    cases h <;> rfl
  · rfl

end Decoder

/-! ### Sections -/

/-- A custom section whose data begins elsewhere. -/
def CustomSection.mapOffset (f : Nat → Nat) (s : CustomSection) : CustomSection := { s with offset := f s.offset }

/-- What a section holds, when all that has a position stands elsewhere. -/
def Contents.mapOffsets (f : Nat → Nat) : Contents → Contents
  | custom s names => custom (s.mapOffset f) names
  | types entries => types (entries.map (Prod.map f fun a => a))
  | imports entries => imports (entries.map (Prod.map f fun a => a))
  | functions entries => functions (entries.map (Prod.map f fun a => a))
  | tables entries => tables (entries.map (Prod.map f fun a => a))
  | memories entries => memories (entries.map (Prod.map f fun a => a))
  | globals entries => globals (entries.map (Prod.map f fun a => a))
  | exports entries => exports (entries.map (Prod.map f fun a => a))
  | start func => start func
  | elements entries => elements (entries.map (Prod.map f fun a => a))
  | code entries => code (entries.map (Prod.map f (FunctionBody.mapOffsets f)))
  | data entries => data (entries.map (Prod.map f fun a => a))
  | dataCount count => dataCount count

/-- A section in which all that has a position stands elsewhere. -/
def Section.mapOffsets (f : Nat → Nat) (s : Section) : Section := { s with contents := s.contents.mapOffsets f }

section

variable {f : Nat → Nat}

@[simp] theorem Contents.id_mapOffsets (contents : Contents) : (contents.mapOffsets f).id = contents.id := by
  cases contents <;> rfl

@[simp] theorem Contents.rank?_mapOffsets (contents : Contents) :
    (contents.mapOffsets f).rank? = contents.rank? := by
  rw [rank?, rank?, id_mapOffsets]

@[simp] theorem Section.rank?_mapOffsets (s : Section) : (s.mapOffsets f).contents.rank? = s.contents.rank? :=
  s.contents.rank?_mapOffsets

@[simp] theorem Section.bytes_mapOffsets (s : Section) : (s.mapOffsets f).bytes = s.bytes := by
  rw [bytes, bytes, mapOffsets, Contents.id_mapOffsets]

end

theorem Contents.mapOffsets_id (contents : Contents) : contents.mapOffsets (fun p => p) = contents := by
  cases contents with
  | code entries =>
    have hsame : FunctionBody.mapOffsets (fun p => p) = fun body => body := funext FunctionBody.mapOffsets_id
    simp [mapOffsets, hsame]
  | _ => simp [mapOffsets, CustomSection.mapOffset]

theorem Section.mapOffsets_id (s : Section) : s.mapOffsets (fun p => p) = s := by
  rw [mapOffsets, Contents.mapOffsets_id]

/-- **What stands in a window stands in one with the same bytes**, up to the places in it. -/
theorem Contents.StandsIn.later {contents : Contents} {w c w' : Cursor} (h : contents.StandsIn features limits w c)
    (hw : w.Later k w') : ∃ c', (contents.mapOffsets (· + k)).StandsIn features limits w' c' ∧ c.Later k c' := by
  cases contents with
  | custom s names =>
    obtain ⟨c₁, hname, hoffset, hdata, rfl, rfl⟩ := h
    obtain ⟨c₁', hname', hc₁⟩ := Decoder.Later.name.ok_of hw hname
    refine ⟨_, ⟨c₁', hname', ?_, ?_, (Decoder.namesIn_later _ hc₁).symm, rfl⟩, ?_⟩
    · change s.offset + k = _
      rw [hoffset, hc₁.pos]
    · change s.data = _
      rw [hdata, hc₁.remaining, hc₁.take (Nat.le_refl _)]
    · rw [hc₁.remaining]
      exact hc₁.advance _
  | types => exact Decoder.ReadsVector.later (.funcType _) h hw
  | imports => exact Decoder.ReadsVector.later (.importEntry _) h hw
  | functions => exact Decoder.ReadsVector.later .u32 h hw
  | tables => exact Decoder.ReadsVector.later (.tableType _) h hw
  | memories => exact Decoder.ReadsVector.later .limits h hw
  | globals => exact Decoder.ReadsVector.later (.globalDef _) h hw
  | exports => exact Decoder.ReadsVector.later .exportEntry h hw
  | elements => exact Decoder.ReadsVector.later (.elementSegment _) h hw
  | code => exact Decoder.ReadsVector.later (.sizedBody _ _) h hw
  | data => exact Decoder.ReadsVector.later (.dataSegment _) h hw
  | start | dataCount => exact Decoder.Later.u32.ok_of hw h

namespace Section

variable {data data' : ByteArray} {pos : Nat} {s : Section}

/-- The bytes of a window. -/
theorem rest_window {bytes : List UInt8} (h : bytes <+: data.toList.drop pos) (i : Nat) :
    Cursor.rest ⟨data, pos + i, pos + bytes.length⟩ = bytes.drop i := by
  change (data.toList.take (pos + bytes.length)).drop (pos + i) = _
  rw [← List.drop_drop, ← List.take_drop, ← List.prefix_iff_eq_take.mp h]

/-- **A section stands wherever its bytes do.** -/
theorem StandsAt.later (h : s.StandsAt features limits data pos) (hdata : s.bytes <+: data.toList.drop pos)
    (hdata' : s.bytes <+: data'.toList.drop (pos + k)) :
    (s.mapOffsets (· + k)).StandsAt features limits data' (pos + k) := by
  refine ⟨h.size, h.limit, ?_⟩
  have hwindow : Cursor.Later k ⟨data, pos + (1 + s.size.length), pos + s.bytes.length⟩
      ⟨data', pos + k + (1 + s.size.length), pos + k + s.bytes.length⟩ :=
    ⟨by dsimp only; omega, by dsimp only; omega, by rw [rest_window hdata, rest_window hdata']⟩
  have hpayload := h.payload
  rw [Nat.add_assoc] at hpayload
  obtain ⟨⟨_, _, _⟩, hstands, hpos, hstop, -⟩ := hpayload.later hwindow
  obtain rfl := hstands.onward.data
  dsimp only at hpos hstop
  rw [bytes_mapOffsets, show pos + k + s.bytes.length = pos + s.bytes.length + k by omega, Nat.add_assoc _ 1]
  rw [hpos, hstop] at hstands
  rw [show pos + k + s.bytes.length = pos + s.bytes.length + k by omega] at hstands
  exact hstands

/-- Sections stand wherever their bytes do. -/
theorem StandFrom.later {sections : List Section} (h : StandFrom features limits data pos sections)
    (hdata : sections.flatMap bytes <+: data.toList.drop pos)
    (hdata' : sections.flatMap bytes <+: data'.toList.drop (pos + k)) :
    StandFrom features limits data' (pos + k) (sections.map (mapOffsets (· + k))) := by
  have hbehind {bytes rest l : List UInt8} (h : bytes ++ rest <+: l) : rest <+: l.drop bytes.length := by
    simpa using h.drop bytes.length
  induction sections generalizing pos with
  | nil => trivial
  | cons s sections ih =>
    rw [List.flatMap_cons] at hdata hdata'
    obtain ⟨hs, hmore⟩ := h
    refine ⟨hs.later ((List.prefix_append _ _).trans hdata) ((List.prefix_append _ _).trans hdata'), ?_⟩
    rw [bytes_mapOffsets, show pos + k + s.bytes.length = pos + s.bytes.length + k by omega]
    refine ih hmore ?_ ?_
    · rw [← List.drop_drop]
      exact hbehind hdata
    · rw [show pos + s.bytes.length + k = pos + k + s.bytes.length by omega, ← List.drop_drop]
      exact hbehind hdata'

theorem standFrom_append {sections sections' : List Section} :
    StandFrom features limits data pos (sections ++ sections') ↔ StandFrom features limits data pos sections ∧
      StandFrom features limits data (pos + (sections.flatMap bytes).length) sections' := by
  induction sections generalizing pos with
  | nil => simp [StandFrom]
  | cons s sections ih =>
    simp only [List.cons_append, StandFrom, ih, and_assoc, List.flatMap_cons, List.length_append, Nat.add_assoc]

end Section

end WasmEngine
