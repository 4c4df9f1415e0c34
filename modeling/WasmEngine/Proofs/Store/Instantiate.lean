import WasmEngine.Proofs.Store.Building

/-!
# What instantiation does

The phases put together. An instance is made (`Store.Made`), or its making comes to nothing: because an import
does not fit or a memory is taken, and then the store is as good as unchanged; or because a table or a memory
is too large (`Module.Oversized`), and then the functions of the module are in the store without an
instance. An instance that was made may still lose its memories, if one of its segments does not fit
(`Store.instantiate_cases`).
-/

namespace WasmEngine

/-- The module declares a table or a memory of its own that is too large to be made. -/
def Module.Oversized (m : Module) (config : Config) : Prop :=
  (∃ t ∈ m.tables, maxTableElements < t.limits.min) ∨ ∃ l ∈ m.memories, config.maxMemoryPages < l.min

instance (m : Module) (config : Config) : Decidable (m.Oversized config) :=
  inferInstanceAs (Decidable ((∃ t ∈ m.tables, maxTableElements < t.limits.min) ∨
    ∃ l ∈ m.memories, config.maxMemoryPages < l.min))

namespace Store

variable {σ : Type} {s s' : Store σ} {m : Module} {features : Features} {entities : List Extern}
  {place : Nat}

/-! ### Initializers -/

/-- **Initializers that were checked have a value**, and one of their type. They read imported globals
only. -/
theorem evalConst_spec {funcs globals : Array Nat} {e : ConstExpr} {type : ValueType}
    (hfuncs : List.Forall₂ (s.FuncAt m) m.funcSpace funcs.toList)
    (hglobals : ∀ x t, x < m.importedCount .global → m.globalSpace[x]? = some t →
      ∃ addr, globals[x]? = some addr ∧ s.GlobalAt t addr)
    (h : (m.context features).constType e = .ok type) :
    ∃ c, s.evalConst funcs globals e = some c ∧ (s.Typed → s.Fits type c) := by
  cases e with
  | i32 w | f32 w =>
    cases pure_eq_ok.mp h
    exact ⟨_, rfl, fun _ => toNat_setWidth_lt w⟩
  | i64 w | f64 w =>
    cases pure_eq_ok.mp h
    exact ⟨_, rfl, fun _ => trivial⟩
  | refNull t =>
    cases pure_eq_ok.mp h
    exact ⟨_, rfl, fun _ => .inl rfl⟩
  | refFunc f =>
    obtain ⟨ft, hft, h⟩ := bind_eq_ok.mp h
    cases pure_eq_ok.mp h
    obtain ⟨t, ht, -⟩ := Context.func_eq_ok.mp hft
    obtain ⟨addr, haddr, fe, hfe, -⟩ := forall₂_getElem? hfuncs ht
    rw [Array.getElem?_toList] at haddr
    refine ⟨_, by rw [evalConst, haddr]; rfl, fun _ => .inr ⟨addr, ?_, rfl⟩⟩
    exact (Array.getElem?_eq_some_iff.mp hfe).1
  | globalGet x =>
    unfold Context.constType at h
    dsimp only at h
    split at h
    · nomatch h
    next hx =>
    obtain ⟨t, ht, h⟩ := bind_eq_ok.mp h
    split at h
    · nomatch h
    cases pure_eq_ok.mp h
    obtain ⟨addr, haddr, g, hg, htype⟩ :=
      hglobals x t (Nat.lt_of_not_le hx) (Context.lookUp_eq_ok.mp ht)
    refine ⟨g.cell, by simp [evalConst, haddr, hg], fun hs => ?_⟩
    rw [← htype]
    exact hs.globals g (Array.mem_of_getElem? hg)

theorem constCell_spec {funcs globals : Array Nat} {e : ConstExpr} {type : ValueType}
    (hfuncs : List.Forall₂ (s.FuncAt m) m.funcSpace funcs.toList)
    (hglobals : ∀ x t, x < m.importedCount .global → m.globalSpace[x]? = some t →
      ∃ addr, globals[x]? = some addr ∧ s.GlobalAt t addr)
    (h : (m.context features).constType e = .ok type) :
    Yields (constCell funcs globals e) s
      (fun c s' => s = s' ∧ s.evalConst funcs globals e = some c ∧ (s.Typed → s.Fits type c))
      (fun _ _ => False) := by
  obtain ⟨c, hc, hfits⟩ := evalConst_spec hfuncs hglobals h
  unfold constCell
  refine .of_get ?_
  rw [hc]
  exact .of_ok rfl ⟨rfl, rfl, hfits⟩

/-! ### Globals -/

theorem builds_addGlobal {g : Global} (hg : s.Typed → s.Fits g.type.value g.cell) :
    Builds place #[] s { s with globals := s.globals.push g } := by
  have hext : Extends s { s with globals := s.globals.push g } :=
    { refl_of Extends s with
      globals := .push (R := fun g g' : Global => g'.type = g.type) (fun _ => rfl) g }
  exact {
    toExtends := hext
    funcs_eq := Array.append_empty.symm
    instances_eq := rfl
    owner := fun _ => .inl rfl
    typed := fun hs => hs.extend hext (fun _ => .inl) (fun _ => .inl)
      (fun g' hg' => (Array.mem_push.mp hg').imp (fun h => h) fun he => by
        subst he
        exact (hg hs).mono hext)
      fun _ => .inl }

/-- The imported globals are the first of the globals of an instance. -/
theorem globals_reach {globals : Array Nat} {space : List GlobalType}
    (h : List.Forall₂ s.GlobalAt space globals.toList)
    (hspace : m.imports.filterMap (·.type.global?) <+: space) (hpre : space <+: m.globalSpace) :
    ∀ x t, x < m.importedCount .global → m.globalSpace[x]? = some t →
      ∃ addr, globals[x]? = some addr ∧ s.GlobalAt t addr := by
  intro x t hx ht
  rw [m.importedCount_global] at hx
  have hlt : x < space.length := Nat.lt_of_lt_of_le hx hspace.length_le
  have ht : space[x]? = some t := by
    rw [← ht, List.prefix_iff_getElem?.mp hpre x hlt]
    exact List.getElem?_eq_getElem hlt
  obtain ⟨addr, haddr, hg⟩ := forall₂_getElem? h ht
  exact ⟨addr, by rwa [Array.getElem?_toList] at haddr, hg⟩

variable (place) in
/-- The globals that a module defines come after those that there are. -/
theorem makeGlobals_spec {funcs : Array Nat} :
    ∀ (defs : List GlobalDef) (globals : Array Nat) (s : Store σ) (done : List GlobalType),
    (∀ g ∈ defs, (m.context features).constType g.init = .ok g.type.value) →
    List.Forall₂ (s.FuncAt m) m.funcSpace funcs.toList →
    m.imports.filterMap (·.type.global?) <+: done → done ++ defs.map (·.type) = m.globalSpace →
    List.Forall₂ s.GlobalAt done globals.toList →
    Yields (makeGlobals funcs defs globals) s
      (fun globals' s' => Builds place #[] s s' ∧ List.Forall₂ s'.GlobalAt m.globalSpace globals'.toList ∧
        globals.toList <+: globals'.toList)
      (fun _ _ => False)
  | [], globals, s, done, _, _, _, hspace, hglobals => by
    rw [List.map_nil, List.append_nil] at hspace
    exact .of_ok rfl ⟨refl_of _ s, hspace ▸ hglobals, List.prefix_refl _⟩
  | g :: rest, globals, s, done, hinit, hfuncs, himports, hspace, hglobals => by
    have hreach := globals_reach hglobals himports ⟨_, hspace⟩
    unfold makeGlobals
    refine .bind (constCell_spec hfuncs hreach (hinit g List.mem_cons_self)) ?_
    rintro c _ ⟨rfl, -, hc⟩
    have hb : Builds place #[] s { s with globals := s.globals.push ⟨g.type, c⟩ } :=
      builds_addGlobal hc
    have hnew : GlobalAt { s with globals := s.globals.push ⟨g.type, c⟩ } g.type s.globals.size :=
      ⟨_, Array.getElem?_push_size, rfl⟩
    have hadd : Yields (addGlobal ⟨g.type, c⟩) s (fun addr s' => s.globals.size = addr ∧
        { s with globals := s.globals.push ⟨g.type, c⟩ } = s') (fun _ _ => False) :=
      .of_ok rfl ⟨rfl, rfl⟩
    refine .bind hadd ?_
    rintro _ _ ⟨rfl, rfl⟩
    refine (makeGlobals_spec rest _ _ (done ++ [g.type])
      (fun g' hg' => hinit g' (List.mem_cons_of_mem _ hg')) (hfuncs.imp fun _ _ hf => hf.mono hb.toExtends)
      (himports.trans (List.prefix_append _ _)) (by simpa using hspace) ?_).mono ?_
    · rw [Array.toList_push]
      exact List.rel_append (hglobals.imp fun _ _ hg => hg.mono hb.toExtends) (.cons hnew .nil)
    · rintro globals' s' ⟨hb', hglobals', hpre⟩
      rw [Array.toList_push] at hpre
      exact ⟨trans_of _ hb hb', hglobals', (List.prefix_append _ _).trans hpre⟩

/-! ### Segments and exports -/

/-- **Cells hold the items of an element segment**: they are the values of its initializers, in their order. -/
def HoldsItems (s : Store σ) (funcs globals : Array Nat) (segment : ElementSegment) (items : Array Cell) :
    Prop :=
  List.Forall₂ (fun e c => s.evalConst funcs globals e = some c) segment.items items.toList

/-- Nothing is made of segments but the cells of their items. -/
theorem makeElements_spec {funcs globals : Array Nat} (hm : m.Checked features)
    (hfuncs : List.Forall₂ (s.FuncAt m) m.funcSpace funcs.toList)
    (hglobals : List.Forall₂ s.GlobalAt m.globalSpace globals.toList) :
    Yields (m.elements.mapM fun segment => do
        return (← segment.items.mapM (constCell funcs globals)).toArray) s
      (fun elements s' => s = s' ∧ List.Forall₂
        (fun (segment : ElementSegment) (items : Array Cell) => s.HoldsItems funcs globals segment items ∧
          ∀ c ∈ items, s.Typed → s.Fits (.ref segment.type) c) m.elements elements)
      (fun _ _ => False) := by
  have hreach := globals_reach hglobals (List.prefix_append _ _) (List.prefix_refl _)
  refine .mapM_reads _ fun segment hsegment => ?_
  refine .bind (.mapM_reads
    (P := fun e c => s.evalConst funcs globals e = some c ∧ (s.Typed → s.Fits (.ref segment.type) c)) _
    fun item hitem => constCell_spec hfuncs hreach (hm.items segment hsegment item hitem)) ?_
  rintro cells _ ⟨rfl, hcells⟩
  refine .of_ok rfl ⟨rfl, hcells.imp fun _ _ h => h.1, fun c hc => ?_⟩
  obtain ⟨k, hk⟩ := List.mem_iff_getElem?.mp (List.mem_toArray.mp hc)
  obtain ⟨-, -, -, hfits⟩ := forall₂_getElem? hcells.flip hk
  exact hfits

/-- There is something to export. -/
theorem exportedEntity_isSome {i : ModuleInstance} (hm : m.Checked features)
    (hfuncs : i.funcs.size = m.funcSpace.length) (htables : i.tables.size = m.tableSpace.length)
    (hmemories : i.memories.size = m.memorySpace.length)
    (hglobals : i.globals.size = m.globalSpace.length) {e : Export} (he : e ∈ m.exports) (id : Nat) :
    ∃ x, exportedEntity i id e = some x := by
  have h := hm.exports e he
  unfold Context.checkExport at h
  unfold exportedEntity
  cases hk : e.kind <;> rw [hk] at h <;> obtain ⟨a, ha, -⟩ := bind_eq_ok.mp h
  case func =>
    obtain ⟨t, ht, -⟩ := Context.func_eq_ok.mp ha
    have hlt : e.index < i.funcs.size := hfuncs ▸ (List.getElem?_eq_some_iff.mp ht).1
    exact ⟨_, by dsimp only; rw [Array.getElem?_eq_getElem hlt]; rfl⟩
  case table =>
    have hlt : e.index < i.tables.size :=
      htables ▸ (List.getElem?_eq_some_iff.mp (Context.lookUp_eq_ok.mp ha)).1
    exact ⟨_, by dsimp only; rw [Array.getElem?_eq_getElem hlt]; rfl⟩
  case memory =>
    have hlt : e.index < i.memories.size :=
      hmemories ▸ (List.getElem?_eq_some_iff.mp (Context.lookUp_eq_ok.mp ha)).1
    exact ⟨_, by dsimp only; rw [Array.getElem?_eq_getElem hlt]; rfl⟩
  case global =>
    have hlt : e.index < i.globals.size :=
      hglobals ▸ (List.getElem?_eq_some_iff.mp (Context.lookUp_eq_ok.mp ha)).1
    exact ⟨_, by dsimp only; rw [Array.getElem?_eq_getElem hlt]; rfl⟩

theorem makeExports_spec {i : ModuleInstance} {id : Nat}
    (h : ∀ e ∈ m.exports, ∃ x, exportedEntity i id e = some x) :
    Yields (m.exports.mapM fun e => outside (exportedEntity i id e)) s (fun _ s' => s = s')
      (fun _ _ => False) := by
  refine (Yields.mapM_reads (P := fun _ _ => True) _ fun e he => ?_).mono fun _ _ h => h.1
  obtain ⟨x, hx⟩ := h e he
  rw [hx]
  exact .of_ok rfl ⟨rfl, trivial⟩

/-! ### Making an instance -/

/-- **What there is once an instance was made**, before it is put into its place. -/
structure Made (m : Module) (entities : List Extern) (place : Nat) (s s' : Store σ)
    (i : ModuleInstance) : Prop extends Builds place (m.ownFuncs place) s s' where
  module : i.module = m
  funcs_of : i.funcs.toList = Extern.funcAddrs entities ++ List.range' s.funcs.size m.code.size
  signatures : List.Forall₂ (s'.FuncAt m) m.funcSpace i.funcs.toList
  tables_of : Extern.tableAddrs entities <+: i.tables.toList
  memories_of : Extern.memoryAddrs entities <+: i.memories.toList
  globals_of : Extern.globalAddrs entities <+: i.globals.toList
  tableTypes : List.Forall₂ s'.TableAt m.tableSpace i.tables.toList
  memoryTypes : List.Forall₂ s'.MemoryAt m.memorySpace i.memories.toList
  globalTypes : List.Forall₂ s'.GlobalAt m.globalSpace i.globals.toList
  items : List.Forall₂ (s'.HoldsItems i.funcs i.globals) m.elements i.elements.toList
  bytes : i.data = (m.data.map (·.bytes)).toArray
  owned : ∀ a ∈ i.memories, s'.ownerOf a = some place
  typed_instance : s.Typed → i.Typed s'

/-- The functions of a module have its signatures, once they are in the store. -/
theorem ownFuncs_typed (hm : m.Checked features) {s' : Store σ}
    (h : s'.funcs = s.funcs ++ m.ownFuncs place) :
    List.Forall₂ (s'.FuncAt m) m.functions (List.range' s.funcs.size m.code.size) := by
  refine List.forall₂_iff_get.mpr ⟨?_, fun k hk _ => ?_⟩
  · rw [List.length_range', hm.codeSize, hm.bodies]
  · have hcode : k < m.code.size := by rwa [hm.codeSize, hm.bodies]
    obtain ⟨t, ht, -, htype⟩ := ownFunc_type place hm hcode
    obtain rfl : m.functions.get ⟨k, hk⟩ = t := (List.getElem?_eq_some_iff.mp ht).2
    refine ⟨.wasm (m.ownFunc place k), ?_, htype⟩
    rw [List.get_eq_getElem, List.getElem_range', Nat.one_mul, h,
      Array.getElem?_append_right (Nat.le_add_right _ _), Nat.add_sub_cancel_left]
    exact getElem?_ownFuncs hcode

/-- The memories that are to be imported are all free. -/
def Free (s : Store σ) (entities : List Extern) : Prop :=
  ∀ a ∈ Extern.memoryAddrs entities, s.ownerOf a = none

/-- The store with an instance at the next place. -/
def addInstance (s : Store σ) (i : ModuleInstance) : Store σ :=
  { s with instances := s.instances.push i }

variable (place) in
/-- **The making of an instance** fails if an imported memory is not free, and then nothing has happened. It also
fails if the module is oversized, and then its functions are there. -/
theorem makeInstance_spec (hv : m.Valid) (hm : m.Checked features)
    (h : s.checkImports m entities = .ok ()) :
    Yields (makeInstance m entities place) s
      (fun _ s' => ∃ s₁ i, Made m entities place s s₁ i ∧ s.Free entities ∧ ¬m.Oversized s.config ∧
        s₁.addInstance i = s')
      (fun _ s' => s = s' ∧ ¬s.Free entities ∨
        Builds place (m.ownFuncs place) s s' ∧ s.Free entities ∧ m.Oversized s.config) := by
  have himports := checkImports_eq_ok h
  have hfuncs := imported_funcs himports
  have htables := imported_tables himports
  have hmemories := imported_memories himports
  have hglobals := imported_globals himports
  have hcount : (Extern.memoryAddrs entities).length ≤ 1 := by
    rw [← hmemories.length_eq]
    exact Nat.le_trans (List.prefix_append _ _).length_le hm.memories
  have hexist : ∀ a ∈ Extern.memoryAddrs entities, a < s.memories.size := by
    intro a ha
    obtain ⟨k, hk⟩ := List.mem_iff_getElem?.mp ha
    obtain ⟨-, -, e, he, -⟩ := forall₂_getElem? hmemories.flip hk
    exact (Array.getElem?_eq_some_iff.mp he).1
  have hcounted : (Extern.funcAddrs entities).length = m.importedCount .func := by
    rw [m.importedCount_func, hfuncs.length_eq]
  unfold makeInstance
  -- memories are claimed
  refine .bind ((claimMemories_spec hcount hexist).imp (fun _ _ h => h) ?_) ?_
  · rintro _ _ ⟨rfl, a, ha, hnot⟩
    exact .inl ⟨rfl, fun hfree => hnot (hfree a ha)⟩
  rintro ⟨⟩ s₁ ⟨hb₁, hclaimed⟩
  have hfree : s.Free entities := fun a ha => (hclaimed a ha).1
  have hs₁ : s₁.funcs = s.funcs := hb₁.funcs_eq.trans Array.append_empty
  -- functions are made
  refine .bind_of_ok (hcounted ▸ makeFuncs_eq hm) ?_
  have hb₂ := builds_ownFuncs (s := s₁) place hv hm
  generalize { s₁ with funcs := s₁.funcs ++ m.ownFuncs place } = s₂ at hb₂ ⊢
  -- tables are made
  refine .bind ((makeTables_spec place m s₂).imp (fun _ _ h => h) ?_) ?_
  · rintro _ s₃ ⟨hb₃, hbig⟩
    exact .inr ⟨(hb₂.andThen hb₃).behind hb₁, hfree, .inl hbig⟩
  rintro tables s₃ ⟨hb₃, hown, htablesFit⟩
  have hb₃ := hb₂.andThen hb₃
  have hconfig : s₃.config = s.config := hb₃.config.trans hb₁.config
  -- memories are made
  refine .bind ((makeMemories_spec place hm s₃).imp (fun _ _ h => h) ?_) ?_
  · rintro _ s₄ ⟨hb₄, hbig⟩
    exact .inr ⟨(hb₃.andThen hb₄).behind hb₁, hfree, .inr (hconfig ▸ hbig)⟩
  rintro memories s₄ ⟨hb₄, hownMemories, hmemoriesFit⟩
  have hext : Extends s s₄ := trans_of Extends hb₁.toExtends (hb₃.andThen hb₄).toExtends
  have hspace : List.Forall₂ (s₄.FuncAt m) m.funcSpace
      (Extern.funcAddrs entities ++ List.range' s₁.funcs.size m.code.size) :=
    List.rel_append (hfuncs.imp fun _ _ hf => hf.mono hext)
      (ownFuncs_typed hm (hb₃.andThen hb₄).funcs_eq)
  -- globals are made
  refine .bind ((makeGlobals_spec place m.globals _ s₄ _ hm.globals (by simpa using hspace)
    (List.prefix_refl _) rfl (by simpa using hglobals.imp fun _ _ hg => hg.mono hext)).imp
    (fun _ _ h => h) fun _ _ => False.elim) ?_
  rintro globals s₅ ⟨hb₅, hglobals', himported⟩
  have hb := (hb₃.andThen hb₄).andThen hb₅
  have hext := trans_of Extends hext hb₅.toExtends
  have hspace := hspace.imp fun _ _ hf => hf.mono hb₅.toExtends
  have htables' : List.Forall₂ s₅.TableAt m.tableSpace (Extern.tableAddrs entities ++ tables) :=
    List.rel_append (htables.imp fun _ _ ht => ht.mono hext)
      (hown.imp fun _ _ ht => ht.mono (trans_of Extends hb₄.toExtends hb₅.toExtends))
  have hmemories' : List.Forall₂ s₅.MemoryAt m.memorySpace (Extern.memoryAddrs entities ++ memories) :=
    List.rel_append (hmemories.imp fun _ _ hm => hm.mono hext)
      (hownMemories.imp fun _ _ ha => ha.1.mono hb₅.toExtends)
  -- segments and exports
  refine .bind ((makeElements_spec hm (by simpa using hspace) hglobals').imp
    (fun _ _ h => h) fun _ _ => False.elim) ?_
  rintro elements _ ⟨rfl, helements⟩
  dsimp only
  refine .of_get <| .bind ((makeExports_spec fun e he => exportedEntity_isSome hm ?_ ?_ ?_ ?_ he _).imp
    (fun _ _ h => h) fun _ _ => False.elim) ?_
  · rw [hspace.length_eq, List.size_toArray]
  · rw [htables'.length_eq, List.size_toArray]
  · rw [hmemories'.length_eq, List.size_toArray]
  · rw [hglobals'.length_eq, Array.length_toList]
  rintro exports _ rfl
  refine .of_ok rfl ⟨s₅, _, ?_, hfree, ?_, rfl⟩
  · exact {
      toBuilds := hb.behind hb₁
      module := rfl
      funcs_of := by rw [hs₁]
      signatures := hspace
      tables_of := List.prefix_append _ _
      memories_of := List.prefix_append _ _
      globals_of := himported
      tableTypes := htables'
      memoryTypes := hmemories'
      globalTypes := hglobals'
      items := helements.imp fun _ _ h => h.1
      bytes := rfl
      owned := fun a ha => by
        rcases List.mem_append.mp (List.mem_toArray.mp ha) with ha | ha
        · exact hb.owner_kept (hclaimed a ha).2
        · obtain ⟨k, hk⟩ := List.mem_iff_getElem?.mp ha
          obtain ⟨-, -, -, howner⟩ := forall₂_getElem? hownMemories.flip hk
          exact hb₅.owner_kept howner
      typed_instance := fun hs => {
        valid := hv
        funcs := hspace
        tables := htables'
        memories := hmemories'
        globals := hglobals'
        elements := helements.imp fun _ _ h c hc => h.2 c hc ((hb.behind hb₁).typed hs)
        data := by simp } }
  · rintro (⟨t, ht, hbig⟩ | ⟨l, hl, hbig⟩)
    · exact htablesFit t ht hbig
    · exact hmemoriesFit l hl (hconfig ▸ hbig)

/-! ### Writing segments -/

section

variable {R : Store σ → Store σ → Prop} [IsPreorder (Store σ) R]

theorem keeps_outside {α : Type} : ∀ o : Option α, Keeps R (outside o : StoreM σ α)
  | some a => .pure a
  | none => .throw _

theorem keeps_instanceAt (place : Nat) : Keeps R (instanceAt place : StoreM σ _) :=
  .getBind fun _ => keeps_outside _

theorem keeps_constCell (funcs globals : Array Nat) (e : ConstExpr) :
    Keeps R (constCell funcs globals e : StoreM σ _) :=
  .getBind fun _ => keeps_outside _

end

theorem quiet_dropElement (place x : Nat) (s : Store σ) : s.Quiet (s.dropElement place x) :=
  quiet_modifyInstance fun i => { refl_of ModuleInstance.SameShape i with
    elements := Array.size_setIfInBounds }

theorem quiet_dropData (place x : Nat) (s : Store σ) : s.Quiet (s.dropData place x) :=
  quiet_modifyInstance fun i => { refl_of ModuleInstance.SameShape i with
    data := Array.size_setIfInBounds }

theorem keeps_applyElement (place : Nat) (segment : ElementSegment) (index : Nat) :
    Keeps Quiet (applyElement place segment index : StoreM σ _) := by
  unfold applyElement
  split
  · exact .pure _
  · exact .modify (quiet_dropElement place index)
  · exact .bind (keeps_instanceAt _) fun _ => .bind (keeps_outside _) fun _ =>
      .bind (keeps_outside _) fun _ => .bind (keeps_constCell _ _ _) fun _ =>
      .bind (keeps_onTable (Table.keeps_init _ _ _ _)) fun _ => .modify (quiet_dropElement place index)

theorem keeps_applyData (place : Nat) (segment : DataSegment) (index : Nat) :
    Keeps Quiet (applyData place segment index : StoreM σ _) := by
  unfold applyData
  split
  · exact .pure _
  · exact .bind (keeps_instanceAt _) fun _ => .bind (keeps_outside _) fun _ =>
      .bind (keeps_constCell _ _ _) fun _ =>
      .bind (keeps_onMemory (Memory.keeps_init _ _ _ _)) fun _ => .modify (quiet_dropData place index)

theorem keeps_applySegments (m : Module) (place : Nat) :
    Keeps Quiet (applySegments m place : StoreM σ _) :=
  .bind (.forM _ fun _ _ => keeps_applyElement _ _ _) fun _ => .forM _ fun _ _ => keeps_applyData _ _ _

/-- The instance at a place is one of the module. -/
def Hosts (s : Store σ) (place : Nat) (m : Module) : Prop :=
  ∃ i, s.instances[place]? = some i ∧ i.module = m

theorem Hosts.mono (h : Extends s s') (hi : s.Hosts place m) : s'.Hosts place m := by
  obtain ⟨i, hi, rfl⟩ := hi
  obtain ⟨i', hi', hsame⟩ := h.instances place i hi
  exact ⟨i', hi', hsame.module⟩

theorem typed_modifyInstance {change : ModuleInstance → ModuleInstance} (hs : s.Typed)
    (hshape : ∀ i : ModuleInstance, i.SameShape (change i))
    (h : ∀ i : ModuleInstance, i.Typed (s.modifyInstance place change) →
      (change i).Typed (s.modifyInstance place change)) : (s.modifyInstance place change).Typed := by
  have hext : Extends s (s.modifyInstance place change) := (quiet_modifyInstance hshape).toExtends
  refine hs.extend hext (fun _ => .inl) (fun _ => .inl) (fun _ => .inl) fun i hi => ?_
  change i ∈ s.instances.modify place change at hi
  rcases mem_modify hi with hi | ⟨j, hj, rfl⟩
  · exact .inl hi
  · exact .inr (h j ((hs.instances j (Array.mem_of_getElem? hj)).mono hext))

theorem typed_dropElement (hs : s.Typed) (place index : Nat) : (s.dropElement place index).Typed := by
  refine typed_modifyInstance hs (fun i => { refl_of ModuleInstance.SameShape i with
    elements := Array.size_setIfInBounds }) fun i hi => { hi with elements := ?_ }
  refine List.forall₂_iff_get.mpr ⟨?_, fun k hk hk' c hc => ?_⟩
  · simpa using hi.elements.length_eq
  · have hsize : k < i.elements.size := by simpa using hk'
    have hold := (List.forall₂_iff_get.mp hi.elements).2 k hk (by simpa using hsize)
    rw [List.get_eq_getElem, Array.getElem_toList, Array.getElem_setIfInBounds hsize] at hc
    split at hc
    · nomatch hc
    · exact hold c (by simpa using hc)

theorem typed_dropData (hs : s.Typed) (place index : Nat) : (s.dropData place index).Typed :=
  typed_modifyInstance hs (fun i => { refl_of ModuleInstance.SameShape i with
    data := Array.size_setIfInBounds }) fun _ hi => { hi with data := by simpa using hi.data }

/-- Reading what is there, in a store that stays as it is. -/
theorem outside_of_eq {α : Type} {o : Option α} {a : α} (h : o = some a) :
    (outside o : StoreM σ α) s = .ok a s := by
  rw [h]
  rfl

theorem instanceAt_of_eq {i : ModuleInstance} (h : s.instances[place]? = some i) :
    (instanceAt place : StoreM σ _) s = .ok i s := by
  change outside s.instances[place]? s = _
  exact outside_of_eq h

/-- **Element segments have the type of their table.** -/
theorem typed_applyElement (hm : m.Checked features) (hs : s.Typed) (hi : s.Hosts place m)
    {segment : ElementSegment} {index : Nat} (hsegment : m.elements[index]? = some segment) :
    TypedAfter (applyElement place segment index) s := by
  obtain ⟨i, hi, rfl⟩ := hi
  have ht := hs.instances i (Array.mem_of_getElem? hi)
  have hmem := List.mem_of_getElem? hsegment
  unfold applyElement
  split
  · exact .of_ok rfl hs
  · exact .of_ok rfl (typed_dropElement hs place index)
  next table offset hmode =>
  obtain ⟨⟨type, htype, htypes⟩, hoffset⟩ := hm.elements segment hmem table offset hmode
  obtain ⟨addr, haddr, t, ht', helement, -⟩ := forall₂_getElem? ht.tables htype
  obtain ⟨items, hitems, hfits⟩ := forall₂_getElem? ht.elements hsegment
  rw [Array.getElem?_toList] at haddr hitems
  refine .bind_of_ok (instanceAt_of_eq hi) <| .bind_of_ok (outside_of_eq haddr) <|
    .bind_of_ok (outside_of_eq hitems) ?_
  refine .bind ((constCell_spec ht.funcs (globals_reach ht.globals (List.prefix_append _ _)
    (List.prefix_refl _)) hoffset).imp (fun _ _ h => h) fun _ _ => False.elim) ?_
  rintro start _ ⟨rfl, -, -⟩
  refine .bind (typedAfter_onTable hs (Table.keeps_init _ _ _ _) fun u hu => Table.keepsAll_init _ ?_ _ _) ?_
  · obtain rfl : t = u := Option.some.inj (ht'.symm.trans hu)
    rw [helement, htypes]
    exact hfits
  · exact fun _ s' hs' => .of_ok rfl (typed_dropElement hs' place index)

theorem typed_applyData (hs : s.Typed) {segment : DataSegment} {index : Nat} :
    TypedAfter (applyData place segment index) s := by
  unfold applyData
  split
  · exact .of_ok rfl hs
  next memory offset hmode =>
  have hread {α : Type} (o : Option α) (s : Store σ) (hs : s.Typed) : TypedAfter (outside o) s := by
    cases o with
    | none => exact .of_error rfl hs
    | some a => exact .of_ok rfl hs
  refine .bind (.of_get (hread _ s hs)) fun i s hs => .bind (hread _ s hs) fun addr s hs =>
    .bind (.of_get (hread _ s hs)) fun start s hs => ?_
  exact .bind (typedAfter_onMemory hs (Memory.keeps_init _ _ _ _)) fun _ s' hs' =>
    .of_ok rfl (typed_dropData hs' place index)

/-- **Segments keep types.** -/
theorem typed_applySegments (hm : m.Checked features) (hs : s.Typed) (hi : s.Hosts place m) :
    TypedAfter (applySegments m place) s := by
  have hstay {act : StoreM σ Unit} (hq : Keeps Quiet act) (s : Store σ)
      (hi : s.Hosts place m) (ht : TypedAfter act s) :
      Yields act s (fun _ s' => s'.Typed ∧ s'.Hosts place m) fun _ s' => s'.Typed ∧ s'.Hosts place m :=
    ht.and_end (hi.mono (hq s).toExtends)
  have helements := Yields.forM_inv (σ := Store σ) (I := fun s => s.Typed ∧ s.Hosts place m)
    (f := fun p : ElementSegment × Nat => applyElement place p.1 p.2)
    m.elements.zipIdx s ⟨hs, hi⟩ fun p hp s hI =>
      hstay (keeps_applyElement _ _ _) s hI.2
        (typed_applyElement hm hI.1 hI.2 (List.mem_zipIdx_iff_getElem?.mp hp))
  refine .bind (helements.imp (fun _ _ h => h) fun _ _ h => h.1) fun _ s₁ hI => ?_
  exact .forM_inv (I := Store.Typed) _ s₁ hI.1 fun p _ s hs => typed_applyData hs

/-! ### Instantiation -/

theorem extends_release (place : Nat) (s : Store σ) : Extends s (s.release place) :=
  { refl_of Extends s with
    memories := .map fun e => by split <;> exact refl_of Memory.Grows e.memory }

theorem ownerOf_release (place : Nat) (s : Store σ) (a : Nat) :
    (s.release place).ownerOf a = if s.ownerOf a = some place then none else s.ownerOf a := by
  unfold release ownerOf
  rw [Array.getElem?_map]
  cases s.memories[a]? with
  | none => simp
  | some e =>
    dsimp only [Option.map_some, Option.bind_some]
    split <;> rfl

theorem typed_release (hs : s.Typed) (place : Nat) : (s.release place).Typed :=
  hs.extend (extends_release place s) (fun _ => .inl) (fun _ => .inl) (fun _ => .inl) fun _ => .inl

/-- A module can be instantiated with these imports as far as the store is concerned. -/
def Accepts (s : Store σ) (m : Module) (entities : List Extern) : Prop :=
  s.checkImports m entities = .ok () ∧ s.Free entities

/-- **What comes of an instantiation.** -/
inductive Instantiated (m : Module) (entities : List Extern) (s : Store σ) :
    EStateM.Result Error (Store σ) (Option Nat) → Prop
  /-- An import does not fit, or a memory is not free. -/
  | refused {e : Error} {s' : Store σ} : ¬s.Accepts m entities → Quiet s s' →
    (s.Typed → s'.Typed) → Instantiated m entities s (.error e s')
  /-- A table or a memory is too large. The functions of the module are left behind. -/
  | stranded {e : Error} {s' : Store σ} : s.Accepts m entities → m.Oversized s.config →
    Extends s s' → s'.funcs = s.funcs ++ m.ownFuncs s.instances.size → s'.instances = s.instances →
    (∀ a, s'.ownerOf a = s.ownerOf a) → (s.Typed → s'.Typed) → Instantiated m entities s (.error e s')
  /-- A segment does not fit. The instance is there, but it has lost its memories. -/
  | failed {e : Error} {s₁ s₂ : Store σ} {i : ModuleInstance} : s.Accepts m entities →
    ¬m.Oversized s.config → Made m entities s.instances.size s s₁ i → Quiet (s₁.addInstance i) s₂ →
    (s.Typed → s₂.Typed) → Instantiated m entities s (.error e (s₂.release s.instances.size))
  /-- The instance is there. What remains is its start function. -/
  | made {start : Option Nat} {s₁ s₂ : Store σ} {i : ModuleInstance} : s.Accepts m entities →
    ¬m.Oversized s.config → Made m entities s.instances.size s s₁ i → Quiet (s₁.addInstance i) s₂ →
    (s.Typed → s₂.Typed) → (∀ f, m.start = some f → ∃ addr, i.funcs[f]? = some addr ∧ start = some addr) →
    (m.start = none → start = none) → Instantiated m entities s (.ok start s₂)

theorem typed_addInstance {i : ModuleInstance} (hs : s.Typed) (hi : i.Typed s) :
    (s.addInstance i).Typed := by
  have hext : Extends s (s.addInstance i) :=
    { refl_of Extends s with instances := .push (refl_of _) i }
  refine hs.extend hext (fun _ => .inl) (fun _ => .inl) (fun _ => .inl) fun j hj => ?_
  rcases Array.mem_push.mp hj with hj | rfl
  · exact .inl hj
  · exact .inr (hi.mono hext)

theorem Made.instance {s₁ : Store σ} {i : ModuleInstance} (h : Made m entities place s s₁ i) :
    (s₁.addInstance i).instances[s.instances.size]? = some i := by
  rw [addInstance, ← h.instances_eq]
  exact Array.getElem?_push_size

/-- The part of an instantiation behind the making of the instance. -/
theorem finish_spec (hm : m.Checked features) {s₁ : Store σ} {i : ModuleInstance}
    (h : Made m entities s.instances.size s s₁ i) :
    Yields (do
        applySegments m s.instances.size
        match m.start with
        | none => return none
        | some func => return some (← outside (← instanceAt s.instances.size).funcs[func]?))
      (s₁.addInstance i)
      (fun start s₂ => Quiet (s₁.addInstance i) s₂ ∧ (s.Typed → s₂.Typed) ∧
        (∀ f, m.start = some f → ∃ addr, i.funcs[f]? = some addr ∧ start = some addr) ∧
        (m.start = none → start = none))
      (fun _ s₂ => Quiet (s₁.addInstance i) s₂ ∧ (s.Typed → s₂.Typed)) := by
  have hhosts : (s₁.addInstance i).Hosts s.instances.size m := ⟨i, h.instance, h.module⟩
  have hsegments : Yields (applySegments m s.instances.size) (s₁.addInstance i)
      (fun _ s₂ => Quiet (s₁.addInstance i) s₂ ∧ (s.Typed → s₂.Typed))
      (fun _ s₂ => Quiet (s₁.addInstance i) s₂ ∧ (s.Typed → s₂.Typed)) :=
    .of_end ⟨keeps_applySegments m _ _, fun hs =>
      (typed_applySegments hm (typed_addInstance (h.typed hs) (h.typed_instance hs)) hhosts).end_of⟩
  refine .bind hsegments fun _ s₂ ⟨hquiet, htyped⟩ => ?_
  cases hstart : m.start with
  | none => exact .of_ok rfl ⟨hquiet, htyped, nofun, fun _ => rfl⟩
  | some f =>
    obtain ⟨i', hi', hsame⟩ := hquiet.instances _ i h.instance
    obtain ⟨t, ht, -⟩ := Context.func_eq_ok.mp (hm.start f hstart)
    obtain ⟨addr, haddr, -⟩ := forall₂_getElem? h.signatures ht
    rw [Array.getElem?_toList] at haddr
    have haddr' : i'.funcs[f]? = some addr := by rw [hsame.funcs, haddr]
    refine .bind_of_ok (instanceAt_of_eq hi') <| .bind_of_ok (outside_of_eq haddr') ?_
    refine .of_ok rfl ⟨hquiet, htyped, fun g hg => ?_, nofun⟩
    cases hg
    exact ⟨addr, haddr, rfl⟩

/-- **Every instantiation comes to one of these ends.** No memory may belong yet to the instance that is to be
made. -/
theorem instantiate_cases (hv : m.Valid) (entities : List Extern)
    (hfresh : ∀ a, s.ownerOf a ≠ some s.instances.size) :
    Instantiated m entities s (instantiate m entities s) := by
  obtain ⟨features, hm⟩ := hv.checked
  unfold instantiate
  split
  · next hrefused =>
    refine .refused (fun h => ?_) (refl_of _ s) fun hs => hs
    rw [h.1] at hrefused
    nomatch hrefused
  next haccepted =>
  have hbuild : Yields (do
        makeInstance m entities s.instances.size
        applySegments m s.instances.size
        match m.start with
        | none => return none
        | some func => return some (← outside (← instanceAt s.instances.size).funcs[func]?)) s
      (fun start s₂ => Instantiated m entities s (.ok start s₂))
      (fun e s₂ => Instantiated m entities s (.error e (s₂.release s.instances.size))) := by
    refine .bind ((makeInstance_spec s.instances.size hv hm haccepted).imp (fun _ _ h => h) ?_) ?_
    · rintro e s' (⟨rfl, hnot⟩ | ⟨hb, hfree, hbig⟩)
      · refine .refused (fun h => hnot h.2) ?_ fun hs => typed_release hs _
        exact { toExtends := extends_release _ s, funcs_eq := rfl, instances_size := rfl
                owner := fun a => by rw [ownerOf_release, if_neg (hfresh a)] }
      · refine .stranded ⟨haccepted, hfree⟩ hbig (trans_of Extends hb.toExtends (extends_release _ s'))
          hb.funcs_eq hb.instances_eq (fun a => ?_) fun hs => typed_release (hb.typed hs) _
        rw [ownerOf_release]
        rcases hb.owner a with ha | ⟨ha, hp⟩
        · rw [ha, if_neg (hfresh a)]
        · rw [if_pos hp, ha]
    · rintro ⟨⟩ _ ⟨s₁, i, hmade, hfree, hfits, rfl⟩
      refine (finish_spec hm hmade).imp ?_ ?_
      · rintro start s₂ ⟨hquiet, htyped, hstart, hnone⟩
        exact .made ⟨haccepted, hfree⟩ hfits hmade hquiet htyped hstart hnone
      · rintro e s₂ ⟨hquiet, htyped⟩
        exact .failed ⟨haccepted, hfree⟩ hfits hmade hquiet htyped
  dsimp only
  split
  · next hb => exact hbuild.ok_of hb
  · next hb => exact hbuild.error_of hb

end Store

end WasmEngine
