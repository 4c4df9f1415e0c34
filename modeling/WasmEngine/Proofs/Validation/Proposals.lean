import WasmEngine.Proofs.Binary.Proposals
import WasmEngine.Proofs.Validation.Widening

/-!
# Accepted modules use no proposal that is off

`RawModule.Uses` lists the constructs of proposals, each with the proposals one of which has to be on for it. It is
about the sections of a module as they stand in its bytes when all proposals are on, so it does not depend on
what the reader does with some of them off. A module that is accepted has no construct for which none is on
(`Module.has_of_uses`).

The number of data segments is not among the constructs, although it came with the bulk memory operations: the section
that announces it is read whatever is on (`Module.dataCount_mvp`).
-/

namespace WasmEngine

/-- The signature of a block. -/
def Instruction.blockType? : Instruction → Option BlockType
  | .block t | .loop t | .if_ t => some t
  | _ => none

namespace Contents

/-- The types of values that a section outside of code mentions. -/
def valueTypes : Contents → List ValueType
  | types entries => entries.flatMap fun x => x.2.params ++ x.2.results
  | imports entries => entries.filterMap fun x => x.2.type.global?.map (·.value)
  | globals entries => entries.map (·.2.type.value)
  | _ => []

/-- The types of the elements of tables and element segments. -/
def elementTypes : Contents → List RefType
  | imports entries => entries.filterMap fun x => x.2.type.table?.map (·.element)
  | tables entries => entries.map (·.2.element)
  | elements entries => entries.map (·.2.type)
  | _ => []

/-- The instructions of function bodies, each behind its offset. -/
def instructions : Contents → List (Nat × Instruction)
  | code entries => entries.flatMap (·.2.code)
  | _ => []

end Contents

/-- **The constructs of proposals** in a module with these bytes and sections. Of the proposals given one has to be
on. -/
inductive RawModule.Uses (data : ByteArray) (S : List Section) : List Proposal → Prop
  /-- A signature with several results. -/
  | results {t : FuncType} : t ∈ (ofSections S).types → 1 < t.results.length → Uses data S [.multiValue]
  /-- A block whose signature is given by its index. -/
  | indexedBlock {s : Section} {x : Nat × Instruction} {index : Nat} : s ∈ S → x ∈ s.contents.instructions →
    x.2.blockType? = some (.index index) → Uses data S [.multiValue]
  /-- An opcode of one byte. -/
  | opcode {s : Section} {x : Nat × Instruction} {b : UInt8} {p : Proposal} : s ∈ S → x ∈ s.contents.instructions →
    data[x.1]? = some b → b ∈ p.opcodes → Uses data S [p]
  /-- A number behind the byte `0xFC`. -/
  | longOpcode {s : Section} {x : Nat × Instruction} {sub length : Nat} {p : Proposal} : s ∈ S →
    x ∈ s.contents.instructions → data[x.1]? = some 0xFC →
    Leb128.UnsignedAt 32 (data.toList.drop (x.1 + 1)) sub length → sub ∈ p.longOpcodes → Uses data S [p]
  /-- A data segment with flags: one that is passive or names its memory. -/
  | dataFlags {s : Section} {entries : List (Nat × DataSegment)} {x : Nat × DataSegment} {flags length : Nat} :
    s ∈ S → s.contents = .data entries → x ∈ entries → Leb128.UnsignedAt 32 (data.toList.drop x.1) flags length →
    flags ≠ 0 → Uses data S [.bulkMemory]
  /-- An element segment with flags. -/
  | elementFlags {s : Section} {entries : List (Nat × ElementSegment)} {x : Nat × ElementSegment} {flags length : Nat} :
    s ∈ S → s.contents = .elements entries → x ∈ entries → Leb128.UnsignedAt 32 (data.toList.drop x.1) flags length →
    flags ≠ 0 → Uses data S [.bulkMemory, .referenceTypes]
  /-- References in signatures and globals. -/
  | reference {s : Section} {t : ValueType} : s ∈ S → t ∈ s.contents.valueTypes → t.isRef = true →
    Uses data S [.referenceTypes]
  /-- References in locals. These are declared behind the size of the body, in groups of one type. -/
  | localReference {s : Section} {entries : List (Nat × FunctionBody)} {x : Nat × FunctionBody} {size length : Nat}
    {groups : List (Nat × Nat × ValueType)} {c : Cursor} {g : Nat × Nat × ValueType} :
    s ∈ S → s.contents = .code entries → x ∈ entries → Leb128.UnsignedAt 32 (data.toList.drop x.1) size length →
    Decoder.localGroup.ReadsVector ⟨data, x.1 + length, x.1 + length + size⟩ groups c → g ∈ groups →
    g.2.2.isRef = true → Uses data S [.referenceTypes]
  /-- A reference as the result of a block. -/
  | blockReference {s : Section} {x : Nat × Instruction} {t : ValueType} : s ∈ S → x ∈ s.contents.instructions →
    x.2.blockType? = some (.value t) → t.isRef = true → Uses data S [.referenceTypes]
  /-- A selection of references. -/
  | selectReference {s : Section} {x : Nat × Instruction} {t : ValueType} : s ∈ S → x ∈ s.contents.instructions →
    x.2 = .selectTyped t → t.isRef = true → Uses data S [.referenceTypes]
  /-- A table or an element segment for references of the embedder. -/
  | externref {s : Section} : s ∈ S → .externref ∈ s.contents.elementTypes → Uses data S [.referenceTypes]
  /-- Several tables. -/
  | tables : 1 < (ofSections S).tableSpace.length → Uses data S [.referenceTypes]

variable {f : Features} {limits : DecodeLimits} {data : ByteArray}

namespace Contents.StandsIn

variable {contents : Contents} {w c : Cursor}

theorem valueTypes (h : contents.StandsIn f limits w c) : ∀ t ∈ contents.valueTypes, f.AdmitsValue t := by
  intro t ht
  cases contents with
  | types entries =>
    obtain ⟨x, hx, ht⟩ := List.mem_flatMap.mp ht
    exact Decoder.gives_funcType.of_vector h x hx t ht
  | imports entries =>
    obtain ⟨x, hx, ht⟩ := List.mem_filterMap.mp ht
    have hadmits := Decoder.gives_importEntry.of_vector h x hx
    cases htype : x.2.type <;> rw [htype] at ht hadmits <;> cases ht
    exact hadmits
  | globals entries =>
    obtain ⟨x, hx, rfl⟩ := List.mem_map.mp ht
    exact Decoder.gives_globalDef.of_vector h x hx
  | _ => nomatch ht

theorem elementTypes (h : contents.StandsIn f limits w c) : ∀ t ∈ contents.elementTypes, f.AdmitsElement t := by
  intro t ht
  cases contents with
  | imports entries =>
    obtain ⟨x, hx, ht⟩ := List.mem_filterMap.mp ht
    have hadmits := Decoder.gives_importEntry.of_vector h x hx
    cases htype : x.2.type <;> rw [htype] at ht hadmits <;> cases ht
    exact hadmits
  | tables entries =>
    obtain ⟨x, hx, rfl⟩ := List.mem_map.mp ht
    exact Decoder.gives_tableType.of_vector h x hx
  | elements entries =>
    obtain ⟨x, hx, rfl⟩ := List.mem_map.mp ht
    exact Decoder.gives_elementSegment.of_vector h x hx
  | _ => nomatch ht

theorem instructions (h : contents.StandsIn f limits w c) : ∀ x ∈ contents.instructions, ∃ c₁ c₂,
    c₁.data = w.data ∧ Decoder.instruction f c₁ = .ok x.2 c₂ ∧ c₁.pos = x.1 := by
  intro x hx
  cases contents with
  | code entries =>
    obtain ⟨body, hbody, hx⟩ := List.mem_flatMap.mp hx
    obtain ⟨c₀, _, honward, hread, -⟩ := Decoder.ReadsVector.mem (Decoder.keeps_sizedBody f limits) h hbody
    obtain ⟨_, _, -, -, hcode⟩ := Decoder.sizedBody_reads hread
    obtain ⟨c₁, c₂, hdata, hi, hpos⟩ := hcode x hx
    exact ⟨c₁, c₂, hdata.trans honward.data, hi, hpos⟩
  | _ => nomatch hx

end Contents.StandsIn

/-- The bodies of a module are those of its code section. -/
theorem RawModule.bodies_extend {S : List Section} {m : RawModule} {body : FunctionBody}
    (h : body ∈ (m.extend S).bodies) :
    body ∈ m.bodies ∨ ∃ s ∈ S, ∃ entries, s.contents = .code entries ∧ ∃ x ∈ entries, x.2 = body := by
  induction S generalizing m with
  | nil => exact .inl h
  | cons s rest ih =>
    rcases ih h with h | ⟨s', hs', hbody⟩
    · change body ∈ (s.contents.addTo m).bodies at h
      generalize hcontents : s.contents = contents at h
      cases contents with
      | code entries => exact .inr ⟨s, List.mem_cons_self, entries, hcontents, List.mem_map.mp h⟩
      | _ => exact .inl h
    · exact .inr ⟨s', List.mem_cons_of_mem _ hs', hbody⟩

namespace RawModule.Format

variable {S : List Section} {s : Section}

/-- The entries of a section were read from the bytes of the module. `hcontents` says which decoder read them. -/
theorem entry_mem (h : RawModule.Format f limits data S) (hs : s ∈ S) {α : Type} {d : Decoder α}
    (hd : Keeps Cursor.Onward d) {entries : List (Nat × α)}
    (hcontents : ∀ {w c}, s.contents.StandsIn f limits w c → d.ReadsVector w entries c) {x : Nat × α}
    (hx : x ∈ entries) : ∃ c c', c.data = data ∧ c.pos = x.1 ∧ d c = .ok x.2 c' := by
  obtain ⟨w, _, rfl, hstands⟩ := h.stand.mem hs
  obtain ⟨c, c', honward, hread, hpos⟩ := (hcontents hstands).mem hd hx
  exact ⟨c, c', honward.data, hpos, hread⟩

theorem instruction_mem (h : RawModule.Format f limits data S) (hs : s ∈ S) {x : Nat × Instruction}
    (hx : x ∈ s.contents.instructions) :
    ∃ c c', c.data = data ∧ c.pos = x.1 ∧ Decoder.instruction f c = .ok x.2 c' := by
  obtain ⟨w, _, rfl, hstands⟩ := h.stand.mem hs
  obtain ⟨c, c', hdata, hread, hpos⟩ := hstands.instructions x hx
  exact ⟨c, c', hdata, hpos, hread⟩

/-- Each body was read from the bytes of the module. -/
theorem body_mem (h : RawModule.Format f limits data S) {body : FunctionBody} (hbody : body ∈ (ofSections S).bodies) :
    ∃ c c', c.data = data ∧ Decoder.sizedBody f limits c = .ok body c' := by
  rcases RawModule.bodies_extend hbody with hnil | ⟨s, hs, entries, hcontents, x, hx, rfl⟩
  · nomatch hnil
  · obtain ⟨c, c', hdata, -, hread⟩ := h.entry_mem hs (Decoder.keeps_sizedBody f limits) (fun hstands => by
      rw [hcontents] at hstands
      exact hstands) hx
    exact ⟨c, c', hdata, hread⟩

/-- Each instruction of a body was read at its offset. -/
theorem body_instruction (h : RawModule.Format f limits data S) {body : FunctionBody}
    (hbody : body ∈ (ofSections S).bodies) {x : Nat × Instruction} (hx : x ∈ body.code) :
    ∃ c c', c.data = data ∧ c.pos = x.1 ∧ Decoder.instruction f c = .ok x.2 c' := by
  obtain ⟨c, _, rfl, hread⟩ := h.body_mem hbody
  obtain ⟨_, _, -, -, hcode⟩ := Decoder.sizedBody_reads hread
  obtain ⟨c₁, c₂, hdata, hinstruction, hpos⟩ := hcode x hx
  exact ⟨c₁, c₂, hdata, hpos, hinstruction⟩

end RawModule.Format

theorem Features.AdmitsInstruction.block {i : Instruction} (h : f.AdmitsInstruction i) {t : BlockType}
    (ht : i.blockType? = some t) : f.AdmitsBlock t := by
  cases i <;> cases ht <;> exact h

/-! ### What validation checks -/

theorem Context.checkTypes_results {c : Context} (h : c.checkTypes = .ok ()) {t : FuncType} (ht : t ∈ c.types)
    (hmany : 1 < t.results.length) : c.features.multiValue = true := by
  unfold checkTypes at h
  split at h
  · assumption
  · split at h
    · nomatch h
    · next hnone => exact absurd (decide_eq_true hmany) (List.find?_eq_none.mp hnone t ht)

theorem Context.checkTableCount_many {c : Context} (h : c.checkTableCount = .ok ()) (hmany : 1 < c.tables.length) :
    c.features.referenceTypes = true := by
  unfold checkTableCount at h
  split at h
  · nomatch h
  · next hno => simpa [hmany] using hno

theorem RawModule.validate_counts {raw : RawModule} {m : Module} (h : raw.validate f = .ok m) :
    (∀ t ∈ raw.types, 1 < t.results.length → f.multiValue = true) ∧
      (1 < raw.tableSpace.length → f.referenceTypes = true) := by
  obtain ⟨hdecl, -⟩ := RawModule.validate_eq_ok.mp h
  unfold Context.checkDeclarations at hdecl
  obtain ⟨⟨⟩, htypes, hdecl⟩ := bind_eq_ok.mp hdecl
  obtain ⟨⟨⟩, -, hdecl⟩ := bind_eq_ok.mp hdecl
  obtain ⟨⟨⟩, -, hdecl⟩ := bind_eq_ok.mp hdecl
  obtain ⟨⟨⟩, -, hdecl⟩ := bind_eq_ok.mp hdecl
  obtain ⟨⟨⟩, hcount, -⟩ := bind_eq_ok.mp hdecl
  exact ⟨fun t ht hmany => Context.checkTypes_results htypes ht hmany, Context.checkTableCount_many hcount⟩

/-- **A module that is accepted uses no proposal that is off.** -/
theorem Module.has_of_uses {m : Module} (hm : Module.ofBytes data f limits = .ok m) {S : List Section}
    (hS : RawModule.Format .all limits data S) {ps : List Proposal} (hu : RawModule.Uses data S ps) :
    ∃ p ∈ ps, f.has p = true := by
  obtain ⟨raw, hraw, hvalid⟩ := Module.ofBytes_eq_ok.mp hm
  obtain ⟨S', hS', rfl⟩ := RawModule.ofBytes_eq_ok_iff.mp hraw
  -- the sections are the same as with all proposals
  obtain rfl : S' = S := (hS'.mono f.le_all).unique hS
  obtain ⟨hresults, htables⟩ := RawModule.validate_counts hvalid
  have hone {p : Proposal} (h : f.has p = true) : ∃ q ∈ [p], f.has q = true := ⟨p, List.mem_singleton_self p, h⟩
  cases hu with
  | results ht hmany => exact hone (hresults _ ht hmany)
  | tables hmany => exact hone (htables hmany)
  | indexedBlock hs hx ht =>
    obtain ⟨_, _, -, -, hread⟩ := hS'.instruction_mem hs hx
    exact hone ((Decoder.gives_instruction _ _ _ hread).block ht)
  | blockReference hs hx ht href =>
    obtain ⟨_, _, -, -, hread⟩ := hS'.instruction_mem hs hx
    exact hone ((Decoder.gives_instruction _ _ _ hread).block ht href)
  | selectReference hs hx ht href =>
    obtain ⟨_, _, -, -, hread⟩ := hS'.instruction_mem hs hx
    rw [ht] at hread
    exact hone (Decoder.gives_instruction _ _ _ hread href)
  | opcode hs hx hb hp =>
    obtain ⟨c, _, rfl, hpos, hread⟩ := hS'.instruction_mem hs hx
    rw [← hpos] at hb
    exact hone (Decoder.instruction_opcode hread hb hp)
  | longOpcode hs hx hb hsub hp =>
    obtain ⟨c, _, rfl, hpos, hread⟩ := hS'.instruction_mem hs hx
    rw [← hpos] at hb hsub
    exact hone (Decoder.instruction_longOpcode hread hb hsub hp)
  | dataFlags hs hentries hx hflags hne =>
    obtain ⟨c, _, rfl, hpos, hread⟩ :=
      hS'.entry_mem hs (Decoder.keeps_dataSegment f) (fun h => by rwa [hentries] at h) hx
    rw [← hpos] at hflags
    exact hone (Decoder.dataSegment_flags hread hflags hne)
  | elementFlags hs hentries hx hflags hne =>
    obtain ⟨c, _, rfl, hpos, hread⟩ :=
      hS'.entry_mem hs (Decoder.keeps_elementSegment f) (fun h => by rwa [hentries] at h) hx
    rw [← hpos] at hflags
    rcases Decoder.elementSegment_flags hread hflags hne with h | h
    · exact ⟨.bulkMemory, by simp, h⟩
    · exact ⟨.referenceTypes, by simp, h⟩
  | reference hs ht href =>
    obtain ⟨w, _, -, hstands⟩ := hS'.stand.mem hs
    exact hone (hstands.valueTypes _ ht href)
  | localReference hs hentries hx hsize hgroups hg href =>
    obtain ⟨c, _, rfl, hpos, hread⟩ :=
      hS'.entry_mem hs (Decoder.keeps_sizedBody f limits) (fun h => by rwa [hentries] at h) hx
    rw [← hpos] at hsize hgroups
    obtain ⟨_, _, hsize', ⟨groups, _, hgroups', hadmits⟩, -⟩ := Decoder.sizedBody_reads hread
    obtain ⟨rfl, rfl⟩ := hsize'.unique hsize
    obtain ⟨rfl, -⟩ := hgroups'.unique hgroups
    exact hone (hadmits _ hg href)
  | externref hs ht =>
    obtain ⟨w, _, -, hstands⟩ := hS'.stand.mem hs
    exact hone (hstands.elementTypes _ ht rfl)

/-- A module with a signature of two results. -/
def Module.pairingBytes : ByteArray := ⟨#[0, 97, 115, 109, 1, 0, 0, 0, 1, 6, 1, 96, 0, 2, 127, 127]⟩

/-- It is accepted with multiple values, which it uses. -/
theorem Module.has_of_uses_pairing : ∃ m S, Module.ofBytes pairingBytes (Features.mvp.set .multiValue true) {} = .ok m ∧
    RawModule.Format .all {} pairingBytes S ∧ RawModule.Uses pairingBytes S [.multiValue] ∧
      ∃ p ∈ [Proposal.multiValue], (Features.mvp.set .multiValue true).has p = true := by
  have haccepted : (Module.ofBytes pairingBytes (Features.mvp.set .multiValue true) {}).toOption.any
      (fun m => decide (⟨[], [.i32, .i32]⟩ ∈ m.types)) = true := by decide +kernel
  cases hm : Module.ofBytes pairingBytes (Features.mvp.set .multiValue true) {} with
  | error e =>
    rw [hm] at haccepted
    cases haccepted
  | ok m =>
    rw [hm] at haccepted
    have htype : ⟨[], [.i32, .i32]⟩ ∈ m.types := of_decide_eq_true haccepted
    obtain ⟨raw, hraw, hvalid⟩ := Module.ofBytes_eq_ok.mp hm
    obtain ⟨S, hS, rfl⟩ := RawModule.ofBytes_eq_ok_iff.mp (RawModule.ofBytes_mono (Features.le_all _) hraw)
    obtain ⟨-, _, -, rfl⟩ := RawModule.validate_eq_ok.mp hvalid
    have huses : RawModule.Uses pairingBytes S [.multiValue] := .results htype (by decide)
    exact ⟨_, S, rfl, hS, huses, Module.has_of_uses hm hS huses⟩

/-- A module that announces that it has no data segments. -/
def Module.announcingBytes : ByteArray := ⟨#[0, 97, 115, 109, 1, 0, 0, 0, 12, 1, 0]⟩

/-- It is accepted without any proposal. -/
theorem Module.dataCount_mvp : ∃ m, Module.ofBytes announcingBytes .mvp {} = .ok m ∧ m.dataCount = some 0 := by
  have haccepted : (Module.ofBytes announcingBytes .mvp {}).toOption.any
      (fun m => decide (m.dataCount = some 0)) = true := by decide +kernel
  cases hm : Module.ofBytes announcingBytes .mvp {} with
  | error e =>
    rw [hm] at haccepted
    cases haccepted
  | ok m =>
    rw [hm] at haccepted
    exact ⟨m, rfl, of_decide_eq_true haccepted⟩

end WasmEngine
