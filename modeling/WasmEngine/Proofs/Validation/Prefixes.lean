import WasmEngine.Proofs.Binary.Truncation
import WasmEngine.Proofs.Validation.Widening

/-!
# Modules without their last sections

What a section refers to stands before it: signatures before imports, imports before functions, and everything that
has an index before exports, initializers of elements, code and data. So a valid module is still valid if all sections
from some place on are dropped (`RawModule.upTo`): a check of a section that is kept looks at nothing that was dropped,
and of a section that was dropped nothing is left to check. Only the numbers of tables and memories are looked at
behind the sections that define them, and they do not grow.

With what is known of bytes that are cut off, this says that a module's bytes may be cut off anywhere without ever
becoming invalid: they are read as a valid module, or a fault of the format is found (`Module.ofBytes_prefix`).
-/

namespace WasmEngine

variable {features : Features} {limits : DecodeLimits} {m : RawModule} {n : Nat}

/-- **A module without the sections behind a place** in the order of sections, custom ones included. -/
def RawModule.upTo (m : RawModule) (n : Nat) : RawModule where
  types := if 1 ≤ n then m.types else []
  imports := if 2 ≤ n then m.imports else []
  functions := if 3 ≤ n then m.functions else []
  tables := if 4 ≤ n then m.tables else []
  memories := if 5 ≤ n then m.memories else []
  globals := if 6 ≤ n then m.globals else []
  exports := if 7 ≤ n then m.exports else []
  start := if 8 ≤ n then m.start else none
  elements := if 9 ≤ n then m.elements else []
  dataCount := if 10 ≤ n then m.dataCount else none
  bodies := if 11 ≤ n then m.bodies else []
  data := if 12 ≤ n then m.data else []

/-! ### The sections before a place -/

/-- Sections behind the place make no difference. -/
theorem Contents.upTo_addTo_behind {contents : Contents} (h : ∀ place, contents.rank? = some place → n < place) :
    (contents.addTo m).upTo n = m.upTo n := by
  have hbehind {place : Nat} (hplace : contents.rank? = some place) : ¬place ≤ n := Nat.not_le.mpr (h place hplace)
  cases contents with
  | custom => rfl
  | _ => simp [RawModule.upTo, addTo, hbehind rfl]

/-- Sections up to the place are kept. -/
theorem Contents.upTo_addTo {contents : Contents} {place : Nat} (hplace : contents.rank? = some place)
    (h : place ≤ n) : (contents.addTo m).upTo n = contents.addTo (m.upTo n) := by
  cases contents with
  | custom => nomatch hplace
  | _ =>
    cases hplace
    simp [RawModule.upTo, addTo, h]

theorem Contents.rank?_le {place : Nat} (contents : Contents) (h : contents.rank? = some place) : place ≤ 12 := by
  cases contents <;> cases h <;> decide

namespace RawModule

theorem upTo_extend_behind {S : List Section} (h : Section.InOrder n S) : (m.extend S).upTo n = m.upTo n := by
  induction S generalizing m with
  | nil => rfl
  | cons s S ih =>
    have hs : ∀ place, s.contents.rank? = some place → n < place := fun place hplace =>
      List.rel_of_pairwise_cons h (List.mem_filterMap.mpr ⟨s, List.mem_cons_self, hplace⟩)
    have hrest : Section.InOrder n S := h.sublist (.cons_cons n ((List.sublist_cons_self s S).filterMap _))
    exact (ih hrest).trans (Contents.upTo_addTo_behind hs)

/-- Of sections up to a place, nothing is lost behind it. -/
theorem upTo_extend {S : List Section} (h : ∀ s ∈ S, ∀ place, s.contents.rank? = some place → place ≤ n)
    {k : Nat} (hk : n ≤ k) {m' : RawModule} (hm : m.upTo n = m'.upTo k) :
    (m.extend S).upTo n = (m'.extend S).upTo k := by
  induction S generalizing m m' with
  | nil => exact hm
  | cons s S ih =>
    obtain ⟨hs, hS⟩ := List.forall_mem_cons.mp h
    refine ih hS ?_
    cases hplace : s.contents.rank? with
    | none =>
      have hnone {p : Nat} : ∀ place, s.contents.rank? = some place → p < place := fun place h => by
        rw [hplace] at h
        nomatch h
      rw [Contents.upTo_addTo_behind hnone, Contents.upTo_addTo_behind hnone, hm]
    | some place =>
      have hle := hs place hplace
      rw [Contents.upTo_addTo hplace hle, Contents.upTo_addTo hplace (hle.trans hk), hm]

/-- **The first sections of a module are the module up to some place.** -/
theorem ofSections_upTo {S₁ S₂ : List Section} (h : ((S₁ ++ S₂).filterMap (·.contents.rank?)).Pairwise (· < ·)) :
    ∃ n, (ofSections S₁).upTo 12 = (ofSections (S₁ ++ S₂)).upTo n := by
  rw [List.filterMap_append, List.pairwise_append] at h
  obtain ⟨-, h₂, hbetween⟩ := h
  have hgreatest (l : List Nat) : ∃ n, (∀ a ∈ l, a ≤ n) ∧ (n = 0 ∨ n ∈ l) := by
    induction l with
    | nil => exact ⟨0, nofun, .inl rfl⟩
    | cons a l ih =>
      obtain ⟨n, hle, hn⟩ := ih
      refine ⟨max a n, List.forall_mem_cons.mpr ⟨Nat.le_max_left _ _, fun b hb => ?_⟩, ?_⟩
      · exact (hle b hb).trans (Nat.le_max_right _ _)
      · rcases Nat.le_total a n with hlt | hge
        · rw [Nat.max_eq_right hlt]
          exact hn.imp_right (List.mem_cons_of_mem a)
        · rw [Nat.max_eq_left hge]
          exact .inr List.mem_cons_self
  obtain ⟨n, hle, hn⟩ := hgreatest (S₁.filterMap (·.contents.rank?))
  have horder : Section.InOrder n S₂ := by
    rcases hn with rfl | hn
    · exact Section.inOrder_zero.mpr h₂
    · exact List.pairwise_cons.mpr ⟨hbetween n hn, h₂⟩
  have hlast : n ≤ 12 := by
    rcases hn with rfl | hn
    · exact Nat.zero_le _
    · obtain ⟨s, -, hs⟩ := List.mem_filterMap.mp hn
      exact s.contents.rank?_le hs
  have hall : ∀ s ∈ S₁, ∀ place, s.contents.rank? = some place → place ≤ n := fun s hs place hplace =>
    hle place (List.mem_filterMap.mpr ⟨s, hs, hplace⟩)
  refine ⟨n, ?_⟩
  have happend : ofSections (S₁ ++ S₂) = (ofSections S₁).extend S₂ := List.foldl_append
  rw [happend, upTo_extend_behind horder]
  exact (upTo_extend hall hlast (by simp [upTo])).symm

/-! ### What checks look at -/

section

variable (m)

theorem types_upTo (h : 1 ≤ n) : (m.upTo n).types = m.types := if_pos h

theorem imports_upTo (h : 2 ≤ n) : (m.upTo n).imports = m.imports := if_pos h

theorem functions_upTo (h : 3 ≤ n) : (m.upTo n).functions = m.functions := if_pos h

theorem tables_upTo (h : 4 ≤ n) : (m.upTo n).tables = m.tables := if_pos h

theorem memories_upTo (h : 5 ≤ n) : (m.upTo n).memories = m.memories := if_pos h

theorem globals_upTo (h : 6 ≤ n) : (m.upTo n).globals = m.globals := if_pos h

theorem exports_upTo (h : 7 ≤ n) : (m.upTo n).exports = m.exports := if_pos h

theorem elements_upTo (h : 9 ≤ n) : (m.upTo n).elements = m.elements := if_pos h

theorem dataCount_upTo (h : 10 ≤ n) : (m.upTo n).dataCount = m.dataCount := if_pos h

theorem bodies_upTo (h : 11 ≤ n) : (m.upTo n).bodies = m.bodies := if_pos h

end

end RawModule

namespace Context

open RawModule

theorem type_upTo (h : 1 ≤ n) : (ofModule (m.upTo n) features).type = (ofModule m features).type := by
  funext i
  simp (disch := omega) only [Context.type, ofModule, types_upTo]

theorem func_upTo (h : 3 ≤ n) : (ofModule (m.upTo n) features).func = (ofModule m features).func := by
  funext i
  unfold func
  rw [type_upTo (by omega)]
  simp (disch := omega) only [ofModule, funcSpace, imports_upTo, functions_upTo]

theorem table_upTo (h : 4 ≤ n) : (ofModule (m.upTo n) features).table = (ofModule m features).table := by
  funext i
  simp (disch := omega) only [table, ofModule, tableSpace, imports_upTo, tables_upTo]

theorem memory_upTo (h : 5 ≤ n) : (ofModule (m.upTo n) features).memory = (ofModule m features).memory := by
  funext i
  simp (disch := omega) only [memory, ofModule, memorySpace, imports_upTo, memories_upTo]

theorem global_upTo (h : 6 ≤ n) : (ofModule (m.upTo n) features).global = (ofModule m features).global := by
  funext i
  simp (disch := omega) only [global, ofModule, globalSpace, imports_upTo, globals_upTo]

theorem expectConst_upTo (h : 6 ≤ n) :
    (ofModule (m.upTo n) features).expectConst = (ofModule m features).expectConst := by
  funext e type
  have himported : (ofModule (m.upTo n) features).importedGlobals = (ofModule m features).importedGlobals := by
    simp (disch := omega) only [ofModule, importedCount, imports_upTo]
  unfold expectConst constType
  rw [func_upTo (by omega), global_upTo h, himported]

/-- The context of bodies. -/
theorem ofModule_upTo (h : 11 ≤ n) : ofModule (m.upTo n) features = ofModule m features := by
  simp (disch := omega) only [ofModule, declaredBy, funcSpace, tableSpace, memorySpace, globalSpace, importedCount,
    types_upTo, imports_upTo, functions_upTo, tables_upTo, memories_upTo, globals_upTo, exports_upTo, elements_upTo,
    dataCount_upTo]

/-! ### Checks that are still passed -/

theorem checkTypes_upTo (h : checkTypes (ofModule m features) = .ok ()) :
    checkTypes (ofModule (m.upTo n) features) = .ok () := by
  by_cases hn : 1 ≤ n
  · have hsame : (ofModule (m.upTo n) features).types = (ofModule m features).types := types_upTo m hn
    unfold checkTypes at h ⊢
    rwa [hsame]
  · have hnone : (ofModule (m.upTo n) features).types = [] := if_neg hn
    unfold checkTypes
    rw [hnone]
    split <;> rfl

theorem sublist_upTo {α : Type} (place : Nat) (l : List α) : (if place ≤ n then l else []).Sublist l := by
  split
  · exact List.Sublist.refl l
  · exact List.nil_sublist l

/-- There are not more tables than before. -/
theorem checkTableCount_upTo (h : checkTableCount (ofModule m features) = .ok ()) :
    checkTableCount (ofModule (m.upTo n) features) = .ok () := by
  have hless : (ofModule (m.upTo n) features).tables.length ≤ (ofModule m features).tables.length :=
    (((sublist_upTo 2 m.imports).filterMap _).append (sublist_upTo 4 m.tables)).length_le
  unfold checkTableCount at h ⊢
  split at h
  · nomatch h
  · next hfew =>
    refine if_neg fun hmany => hfew ?_
    rw [Bool.and_eq_true, decide_eq_true_eq] at hmany ⊢
    exact ⟨by omega, hmany.2⟩

theorem checkMemoryCount_upTo (h : checkMemoryCount (ofModule m features) = .ok ()) :
    checkMemoryCount (ofModule (m.upTo n) features) = .ok () := by
  have hless : (ofModule (m.upTo n) features).memories.length ≤ (ofModule m features).memories.length :=
    (((sublist_upTo 2 m.imports).filterMap _).append (sublist_upTo 5 m.memories)).length_le
  have hfew := checkMemoryCount_eq_ok h
  unfold checkMemoryCount
  rw [if_neg (by omega)]
  rfl

theorem checkExports_congr {c c' : Context} (h : c.checkExport = c'.checkExport) (names : List String)
    (exports : List Export) : c.checkExports names exports = c'.checkExports names exports := by
  induction exports generalizing names with
  | nil => rfl
  | cons e rest ih =>
    rw [checkExports, checkExports, h]
    simp only [ih]

theorem checkExport_upTo (h : 6 ≤ n) :
    (ofModule (m.upTo n) features).checkExport = (ofModule m features).checkExport := by
  funext e
  unfold checkExport
  rw [func_upTo (by omega), table_upTo (by omega), memory_upTo (by omega), global_upTo h]

/-- Checks of a list are passed by what is left of it. -/
theorem forM_upTo {α : Type} {check check' : α → Except ValidationFault Unit} {l : List α} {place : Nat}
    (hsame : place ≤ n → check' = check) (h : l.forM check = .ok ()) :
    (if place ≤ n then l else []).forM check' = .ok () := by
  split
  · next hn => rwa [hsame hn]
  · rfl

theorem checkDeclarations_upTo (h : (ofModule m features).checkDeclarations m = .ok ()) :
    (ofModule (m.upTo n) features).checkDeclarations (m.upTo n) = .ok () := by
  unfold checkDeclarations at h ⊢
  obtain ⟨⟨⟩, htypes, h⟩ := bind_eq_ok.mp h
  obtain ⟨⟨⟩, himports, h⟩ := bind_eq_ok.mp h
  obtain ⟨⟨⟩, hfunctions, h⟩ := bind_eq_ok.mp h
  obtain ⟨⟨⟩, htables, h⟩ := bind_eq_ok.mp h
  obtain ⟨⟨⟩, hcount, h⟩ := bind_eq_ok.mp h
  obtain ⟨⟨⟩, hmemories, h⟩ := bind_eq_ok.mp h
  obtain ⟨⟨⟩, hone, h⟩ := bind_eq_ok.mp h
  obtain ⟨⟨⟩, hglobals, h⟩ := bind_eq_ok.mp h
  obtain ⟨⟨⟩, hexports, h⟩ := bind_eq_ok.mp h
  obtain ⟨⟨⟩, hstart, h⟩ := bind_eq_ok.mp h
  obtain ⟨⟨⟩, helements, hdata⟩ := bind_eq_ok.mp h
  refine bind_eq_ok.mpr ⟨(), checkTypes_upTo htypes, ?_⟩
  refine bind_eq_ok.mpr ⟨(), forM_upTo (fun hn => ?_) himports, ?_⟩
  · unfold checkImport
    rw [type_upTo (by omega)]
  refine bind_eq_ok.mpr ⟨(), forM_upTo (fun hn => ?_) hfunctions, ?_⟩
  · unfold checkFunction
    rw [type_upTo (by omega)]
  refine bind_eq_ok.mpr ⟨(), forM_upTo (fun hn => rfl) htables, ?_⟩
  refine bind_eq_ok.mpr ⟨(), checkTableCount_upTo hcount, ?_⟩
  refine bind_eq_ok.mpr ⟨(), forM_upTo (fun hn => rfl) hmemories, ?_⟩
  refine bind_eq_ok.mpr ⟨(), checkMemoryCount_upTo hone, ?_⟩
  refine bind_eq_ok.mpr ⟨(), forM_upTo (fun hn => ?_) hglobals, ?_⟩
  · unfold checkGlobal
    rw [expectConst_upTo hn]
  have hexports' : (ofModule (m.upTo n) features).checkExports [] (m.upTo n).exports = .ok () := by
    by_cases hn : 7 ≤ n
    · rwa [exports_upTo m hn, checkExports_congr (checkExport_upTo (by omega))]
    · rw [show (m.upTo n).exports = [] from if_neg hn]
      rfl
  have hstart' : (m.upTo n).start.forM (ofModule (m.upTo n) features).checkStart = .ok () := by
    by_cases hn : 8 ≤ n
    · rw [show (m.upTo n).start = m.start from if_pos hn]
      unfold checkStart at hstart ⊢
      rwa [func_upTo (by omega)]
    · rw [show (m.upTo n).start = none from if_neg hn]
      rfl
  refine bind_eq_ok.mpr ⟨(), hexports', bind_eq_ok.mpr ⟨(), hstart', ?_⟩⟩
  refine bind_eq_ok.mpr ⟨(), forM_upTo (fun hn => ?_) helements, forM_upTo (fun hn => ?_) hdata⟩
  · unfold checkElement
    rw [expectConst_upTo (by omega), table_upTo (by omega)]
  · unfold checkData
    rw [expectConst_upTo (by omega), memory_upTo (by omega)]

end Context

/-! ### Modules -/

/-- **A valid module is valid without its last sections.** Bodies that are kept are checked in the same context. -/
theorem RawModule.validate_upTo {valid : Module} (h : m.validate features = .ok valid) (n : Nat) :
    ∃ valid', (m.upTo n).validate features = .ok valid' := by
  obtain ⟨hdecl, code, hcode, -⟩ := validate_eq_ok.mp h
  have hcode' : ∃ code, FunctionBody.compileAll (.ofModule (m.upTo n) features) ((m.upTo n).importedCount .func)
      (m.upTo n).bodies = .ok code := by
    by_cases hn : 11 ≤ n
    · rw [Context.ofModule_upTo hn, bodies_upTo m hn, importedCount, imports_upTo m (by omega)]
      exact ⟨code, hcode⟩
    · rw [show (m.upTo n).bodies = [] from if_neg hn]
      exact ⟨[], rfl⟩
  obtain ⟨code', hcode'⟩ := hcode'
  exact ⟨_, validate_eq_ok.mpr ⟨Context.checkDeclarations_upTo hdecl, code', hcode', rfl⟩⟩

/-- Custom sections and names are not looked at. -/
theorem RawModule.validate_of_upTo {valid : Module} (h : (m.upTo 12).validate features = .ok valid) :
    ∃ valid', m.validate features = .ok valid' := by
  obtain ⟨hdecl, code, hcode, -⟩ := validate_eq_ok.mp h
  exact ⟨_, validate_eq_ok.mpr ⟨hdecl, code, hcode, rfl⟩⟩

/-- **A module that is cut off stays valid or is no module**: a beginning of the bytes of a module that is accepted is
accepted as well, or refused with a fault of the format. -/
theorem Module.ofBytes_prefix {bytes cut : ByteArray} {m : Module} (h : Module.ofBytes bytes features limits = .ok m)
    (hcut : cut.toList <+: bytes.toList) :
    (∃ m', Module.ofBytes cut features limits = .ok m') ∨
      ∃ e, Module.ofBytes cut features limits = .error e ∧ e.category = .decode := by
  obtain ⟨raw, hraw, hvalid⟩ := ofBytes_eq_ok.mp h
  obtain ⟨S, hS, rfl⟩ := RawModule.ofBytes_eq_ok_iff.mp hraw
  rcases RawModule.ofBytes_cut hS hcut with ⟨S₁, S₂, rfl, hread⟩ | ⟨e, hread, he⟩
  · obtain ⟨n, hn⟩ := RawModule.ofSections_upTo hS.ordered
    obtain ⟨valid, hbegin⟩ := RawModule.validate_upTo hvalid n
    obtain ⟨m', hm'⟩ := RawModule.validate_of_upTo (hn ▸ hbegin)
    exact .inl ⟨m', ofBytes_eq_ok.mpr ⟨_, hread, hm'⟩⟩
  · refine .inr ⟨.ofDecode e, ?_, he⟩
    unfold Module.ofBytes
    rw [hread]

/-- The module with a table, an element segment and code, cut off in the initializer of the segment. -/
theorem Module.ofBytes_prefix_extending : ∃ m, Module.ofBytes extendingBytes .all {} = .ok m ∧
    (extendingBytes.extract 0 30).toList <+: extendingBytes.toList ∧
    ∃ e, Module.ofBytes (extendingBytes.extract 0 30) .all {} = .error e ∧ e.category = .decode := by
  have haccepted : (Module.ofBytes extendingBytes .all {}).toOption.isSome = true := by decide +kernel
  have hrefused : (Module.ofBytes (extendingBytes.extract 0 30) .all {}).toOption.isSome = false := by decide +kernel
  have hcut : (extendingBytes.extract 0 30).toList <+: extendingBytes.toList := by
    rw [ByteArray.toList_eq, ByteArray.toList_eq]
    exact ⟨[0, 11, 1, 0, 10, 10, 1, 8, 0, 65, 0, 17, 0, 0, 192, 11], by decide +kernel⟩
  rcases hm : Module.ofBytes extendingBytes .all {} with e | m
  · rw [hm] at haccepted
    nomatch haccepted
  · refine ⟨m, rfl, hcut, (Module.ofBytes_prefix hm hcut).resolve_left ?_⟩
    rintro ⟨m', hm'⟩
    rw [hm'] at hrefused
    nomatch hrefused

end WasmEngine
