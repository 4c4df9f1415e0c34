import WasmEngine.Proofs.Store.TypedRequests

/-!
# The parts of an instance

Instantiation makes the entities of a module one kind after the other. `Store.Builds` says what each of these
phases may do to the store: it extends it, adds certain functions and no instance, claims memories that
nobody owned for the place of the new instance, and keeps types.

Each phase has a specification (`Yields`): when it succeeds, what addresses it gives, and when it fails. The
module is one that was checked, and its imports were accepted; so the only phases that can fail are
the claiming of memories that are owned already, and the making of tables and memories that are too large.
-/

namespace WasmEngine

namespace Store

variable {σ : Type} {s s' s'' : Store σ} {m : Module} {features : Features} {entities : List Extern}
  {place : Nat}

/-! ### Imports that were accepted -/

/-- What an accepted import says about the entity. -/
def Imports (s : Store σ) (m : Module) : ImportType → Extern → Prop
  | .func t, .func h => s.FuncAt m t h.index
  | .table type, .table h => s.TableAt type h.index
  | .memory limits, .memory h => s.MemoryAt limits h.index
  | .global type, .global h => s.GlobalAt type h.index
  | _, _ => False

theorem importType_eq_some {i : Import} {asked : ExternType} (h : m.importType? i = some asked) :
    match asked with
    | .func type => ∃ t, i.type = .func t ∧ m.types[t]? = some type
    | .table type => i.type = .table type
    | .memory limits => i.type = .memory limits
    | .global type => i.type = .global type := by
  unfold RawModule.importType? at h
  cases hi : i.type <;> rw [hi] at h
  case func t =>
    obtain ⟨type, htype, rfl⟩ := Option.map_eq_some_iff.mp h
    exact ⟨t, rfl, htype⟩
  all_goals
    cases h
    rfl

theorem externType_eq_ok {e : Extern} {offered : ExternType} (h : s.externType e = .ok offered) :
    match e, offered with
    | .func h, .func type => ∃ f, s.funcs[h.index]? = some f ∧ f.type = type
    | .table h, .table type => ∃ t, s.tables[h.index]? = some t ∧ t.type = type
    | .memory h, .memory limits => ∃ e, s.memories[h.index]? = some e ∧ e.memory.limits = limits
    | .global h, .global type => ∃ g, s.globals[h.index]? = some g ∧ g.type = type
    | _, _ => False := by
  cases e <;> obtain ⟨a, ha, h⟩ := bind_eq_ok.mp h <;> cases pure_eq_ok.mp h
  case memory =>
    obtain ⟨entry, hentry, ha⟩ := bind_eq_ok.mp ha
    cases pure_eq_ok.mp ha
    exact ⟨entry, resolve_eq_ok hentry, rfl⟩
  all_goals exact ⟨a, resolve_eq_ok ha, rfl⟩

theorem accepts_of_checkImport {name : ImportName} {asked offered : ExternType}
    (h : asked.checkImport name offered = .ok ()) :
    match asked, offered with
    | .func expected, .func actual => expected = actual
    | .table expected, .table actual =>
      expected.element = actual.element ∧ actual.limits.fits expected.limits = true
    | .memory expected, .memory actual => actual.fits expected = true
    | .global expected, .global actual => expected = actual
    | _, _ => False := by
  unfold ExternType.checkImport at h
  cases asked <;> cases offered <;> dsimp only at h ⊢ <;> try contradiction
  case table.table =>
    split at h
    · next he =>
      split at h
      · next hl => exact ⟨he, hl⟩
      · nomatch h
    · nomatch h
  all_goals
    split at h
    · assumption
    · nomatch h

theorem checkImport_eq_ok {i : Import} {e : Extern} (h : s.checkImport m i e = .ok ()) :
    s.Imports m i.type e := by
  obtain ⟨⟨⟩, -, h⟩ := bind_eq_ok.mp h
  split at h
  · nomatch h
  next asked hasked =>
  obtain ⟨offered, hoffered, h⟩ := bind_eq_ok.mp h
  split at h
  swap
  · nomatch h
  next haccepts =>
  have hasked := importType_eq_some hasked
  have hoffered := externType_eq_ok hoffered
  have haccepts := accepts_of_checkImport haccepts
  cases e <;> cases offered <;> first | exact hoffered.elim | skip
  all_goals
    cases asked <;> first | exact haccepts.elim | skip
  case func.func.func hd _ _ =>
    obtain ⟨f, hf, rfl⟩ := hoffered
    obtain ⟨t, hi, htype⟩ := hasked
    rw [hi]
    exact ⟨f, hf, by rw [htype, haccepts]⟩
  case table.table.table hd _ _ =>
    obtain ⟨t, ht, rfl⟩ := hoffered
    rw [hasked]
    exact ⟨t, ht, haccepts.1.symm, haccepts.2⟩
  case memory.memory.memory hd _ _ =>
    obtain ⟨entry, hentry, rfl⟩ := hoffered
    rw [hasked]
    exact ⟨entry, hentry, haccepts⟩
  case global.global.global hd _ _ =>
    obtain ⟨g, hg, rfl⟩ := hoffered
    rw [hasked]
    exact ⟨g, hg, haccepts.symm⟩

theorem checkImports_eq_ok (h : s.checkImports m entities = .ok ()) :
    List.Forall₂ (fun i e => s.Imports m i.type e) m.imports entities := by
  unfold checkImports at h
  split at h
  · nomatch h
  next hlength =>
  refine List.forall₂_iff_zip.mpr ⟨(Decidable.not_not.mp hlength).symm, fun {i e} hie => ?_⟩
  exact checkImport_eq_ok (forM_eq_ok.mp h (i, e) hie)

/-- The imported part of an index space. -/
theorem imported_of {α : Type} {P : α → Nat → Prop} {pick : ImportType → Option α}
    {addr : Extern → Option Nat} (h : List.Forall₂ (fun i e => s.Imports m i.type e) m.imports entities)
    (hpick : ∀ (t : ImportType) (e : Extern), s.Imports m t e → Option.Rel P (pick t) (addr e)) :
    List.Forall₂ P (m.imports.filterMap (pick ·.type)) (entities.filterMap addr) :=
  List.rel_filterMap (fun i e hie => hpick i.type e hie) h

section

variable (h : List.Forall₂ (fun i e => s.Imports m i.type e) m.imports entities)
include h

theorem imported_funcs :
    List.Forall₂ (s.FuncAt m) (m.imports.filterMap (·.type.func?)) (Extern.funcAddrs entities) :=
  imported_of h fun t e hte => by
    cases t <;> cases e <;> first | exact .none | exact .some hte | exact hte.elim

theorem imported_tables :
    List.Forall₂ s.TableAt (m.imports.filterMap (·.type.table?)) (Extern.tableAddrs entities) :=
  imported_of h fun t e hte => by
    cases t <;> cases e <;> first | exact .none | exact .some hte | exact hte.elim

theorem imported_memories :
    List.Forall₂ s.MemoryAt (m.imports.filterMap (·.type.memory?)) (Extern.memoryAddrs entities) :=
  imported_of h fun t e hte => by
    cases t <;> cases e <;> first | exact .none | exact .some hte | exact hte.elim

theorem imported_globals :
    List.Forall₂ s.GlobalAt (m.imports.filterMap (·.type.global?)) (Extern.globalAddrs entities) :=
  imported_of h fun t e hte => by
    cases t <;> cases e <;> first | exact .none | exact .some hte | exact hte.elim

end

end Store

/-! ### What a phase may do -/

/-- A function of a module in the instance at a place. Those of the module's own are counted from zero. -/
def Module.ownFunc (m : Module) (place k : Nat) : WasmFunc where
  type := (m.funcType? (m.importedCount .func + k)).getD ⟨[], []⟩
  instance_ := place
  module := m
  index := m.importedCount .func + k

/-- The functions that a module defines, for the instance at a place. -/
def Module.ownFuncs {σ : Type} (m : Module) (place : Nat) : Array (FuncEntity σ) :=
  ((List.range m.code.size).map fun k => .wasm (m.ownFunc place k)).toArray

/-! ### Memories as they are made -/

namespace Memory

variable {l : Limits} {pageCap : Nat}

theorem allocate_eq_error (h : pageCap < l.min) : ∃ fault, allocate l pageCap = .error fault := by
  unfold allocate
  dsimp only
  have hcap : ∀ max, min max pageCap < l.min := fun max => by omega
  cases l.max with
  | none => exact ⟨_, if_pos h⟩
  | some max => exact ⟨_, if_pos (hcap max)⟩

theorem allocate_eq_ok (h : l.min ≤ pageCap) (hmax : ∀ max, l.max = some max → l.min ≤ max) :
    ∃ m, allocate l pageCap = .ok m ∧ m.limits = l := by
  have hlimits (cap : Nat) :
      (Memory.mk l.max cap (pushZeros (l.min * pageSize) ByteArray.empty) l.min).limits = l := by
    unfold limits pages
    rw [size_pushZeros, ByteArray.size_empty, Nat.zero_add, Nat.mul_div_cancel _ (by decide)]
  unfold allocate
  dsimp only
  cases hm : l.max with
  | none => exact ⟨_, if_neg (Nat.not_lt.mpr h), hm ▸ hlimits _⟩
  | some max =>
    have hle : l.min ≤ min max pageCap := Nat.le_min.mpr ⟨hmax max hm, h⟩
    exact ⟨_, if_neg (Nat.not_lt.mpr hle), hm ▸ hlimits _⟩

end Memory

namespace Store

variable {σ : Type} {s s' s'' : Store σ} {m : Module} {features : Features} {entities : List Extern}
  {place : Nat}

/-- **What the making of an instance does to a store** before the instance is there: it adds functions and other
entities, and claims memories that nobody owned for the place of the instance. -/
structure Builds (place : Nat) (new : Array (FuncEntity σ)) (s s' : Store σ) : Prop extends
    Extends s s' where
  funcs_eq : s'.funcs = s.funcs ++ new
  instances_eq : s'.instances = s.instances
  owner : ∀ a, s'.ownerOf a = s.ownerOf a ∨ s.ownerOf a = none ∧ s'.ownerOf a = some place
  typed : s.Typed → s'.Typed

theorem Builds.trans {new new' : Array (FuncEntity σ)} (h : Builds place new s s')
    (h' : Builds place new' s' s'') : Builds place (new ++ new') s s'' where
  toExtends := trans_of Extends h.toExtends h'.toExtends
  funcs_eq := by rw [h'.funcs_eq, h.funcs_eq, Array.append_assoc]
  instances_eq := h'.instances_eq.trans h.instances_eq
  owner a := by
    rcases h.owner a with ha | ⟨ha, hp⟩
    · rw [← ha]
      exact h'.owner a
    · rcases h'.owner a with ha' | ⟨ha', -⟩
      · exact .inr ⟨ha, ha'.trans hp⟩
      · rw [hp] at ha'
        nomatch ha'
  typed := h'.typed ∘ h.typed

/-- A phase that makes no functions comes after one that may. -/
theorem Builds.andThen {new : Array (FuncEntity σ)} (h : Builds place new s s')
    (h' : Builds place #[] s' s'') : Builds place new s s'' := by
  have := h.trans h'
  rwa [Array.append_empty] at this

/-- A phase that makes no functions comes before one that may. -/
theorem Builds.behind {new : Array (FuncEntity σ)} (h : Builds place new s' s'')
    (h' : Builds place #[] s s') : Builds place new s s'' := by
  have := h'.trans h
  rwa [Array.empty_append] at this

instance : IsPreorder (Store σ) (Builds place #[]) where
  refl s := {
    toExtends := refl_of Extends s
    funcs_eq := Array.append_empty.symm
    instances_eq := rfl
    owner := fun _ => .inl rfl
    typed := fun ht => ht }
  trans _ _ _ h h' := h.andThen h'

/-- A memory that was claimed stays claimed. -/
theorem Builds.owner_kept {new : Array (FuncEntity σ)} (h : Builds place new s s') {a : Nat}
    (ha : s.ownerOf a = some place) : s'.ownerOf a = some place := by
  rcases h.owner a with h | ⟨h, -⟩
  · exact h.trans ha
  · rw [ha] at h
    nomatch h

/-- Making one entity after the other: each of them is good, and stays so. -/
theorem mapM_makes {α β γ : Type} {R : γ → γ → Prop} [IsPreorder γ R] {P : γ → α → β → Prop}
    {Bad : α → Prop} {make : α → EStateM Error γ β}
    (mono : ∀ s s' a b, R s s' → P s a b → P s' a b) :
    ∀ (l : List α) (s : γ), (∀ a ∈ l, ∀ s, Yields (make a) s (fun b s' => R s s' ∧ P s' a b ∧ ¬Bad a)
      (fun _ s' => R s s' ∧ Bad a)) →
    Yields (l.mapM make) s (fun bs s' => R s s' ∧ List.Forall₂ (P s') l bs ∧ ∀ a ∈ l, ¬Bad a)
      (fun _ s' => R s s' ∧ ∃ a ∈ l, Bad a)
  | [], s, _ => .of_ok rfl ⟨refl_of R s, .nil, fun _ h => nomatch h⟩
  | a :: l, s, h => by
    rw [List.mapM_cons]
    refine .bind ((h a List.mem_cons_self s).imp (fun _ _ h => h) ?_) fun b s₁ ⟨hR, hP, hgood⟩ => ?_
    · rintro e s' ⟨hR, hbad⟩
      exact ⟨hR, a, List.mem_cons_self, hbad⟩
    have hrest := mapM_makes mono l s₁ fun b hb => h b (List.mem_cons_of_mem _ hb)
    refine .bind (hrest.imp (fun _ _ h => h) ?_) fun bs s₂ ⟨hR', hPs, hgoods⟩ => ?_
    · rintro e s' ⟨hR', b, hb, hbad⟩
      exact ⟨trans_of R hR hR', b, List.mem_cons_of_mem _ hb, hbad⟩
    exact .of_ok rfl ⟨trans_of R hR hR', .cons (mono _ _ _ _ hR' hP) hPs,
      List.forall_mem_cons.mpr ⟨hgood, hgoods⟩⟩

/-! ### Memories that are claimed -/

/-- A store in which a memory belongs to the instance at a place. -/
def claim (place addr : Nat) (s : Store σ) : Store σ :=
  { s with memories := s.memories.modify addr ({ · with owner := some place }) }

theorem ownerOf_claim {addr : Nat} (h : addr < s.memories.size) (a : Nat) :
    (s.claim place addr).ownerOf a = if a = addr then some place else s.ownerOf a := by
  unfold claim ownerOf
  rw [Array.getElem?_modify]
  split
  · next heq =>
    subst heq
    rw [if_pos rfl, Array.getElem?_eq_getElem h]
    rfl
  · next hne => rw [if_neg (Ne.symm hne)]

theorem builds_claim {addr : Nat} (h : addr < s.memories.size) (hnone : s.ownerOf addr = none) :
    Builds place #[] s (s.claim place addr) := by
  have hext : Extends s (s.claim place addr) :=
    { refl_of Extends s with
      memories := .modify (fun e => refl_of Memory.Grows e.memory) fun e => refl_of _ e.memory }
  exact {
    toExtends := hext
    funcs_eq := Array.append_empty.symm
    instances_eq := rfl
    owner := fun a => by
      rw [ownerOf_claim h]
      split
      · next heq => exact .inr ⟨heq ▸ hnone, rfl⟩
      · exact .inl rfl
    typed := fun ht => ht.extend hext (fun _ => .inl) (fun _ => .inl) (fun _ => .inl) fun _ => .inl }

theorem claimMemory_spec {addr : Nat} (h : addr < s.memories.size) :
    Yields (claimMemory place addr) s
      (fun _ s' => Builds place #[] s s' ∧ s.ownerOf addr = none ∧ s'.ownerOf addr = some place)
      (fun _ s' => s' = s ∧ s.ownerOf addr ≠ none) := by
  have he := Array.getElem?_eq_getElem h
  have howner : s.ownerOf addr = s.memories[addr].owner := by rw [ownerOf, he]; rfl
  unfold claimMemory
  refine .of_get ?_
  rw [he]
  dsimp only
  cases ho : s.memories[addr].owner with
  | some owner => exact .of_error rfl ⟨rfl, by rw [howner, ho]; exact Option.some_ne_none _⟩
  | none =>
    have hnone : s.ownerOf addr = none := howner.trans ho
    exact .of_ok rfl ⟨builds_claim h hnone, hnone, (ownerOf_claim h addr).trans (if_pos rfl)⟩

/-- There is at most one memory to claim. -/
theorem claimMemories_spec {addrs : List Nat} (hcount : addrs.length ≤ 1)
    (h : ∀ a ∈ addrs, a < s.memories.size) :
    Yields (addrs.forM (claimMemory place)) s
      (fun _ s' => Builds place #[] s s' ∧ ∀ a ∈ addrs, s.ownerOf a = none ∧ s'.ownerOf a = some place)
      (fun _ s' => s' = s ∧ ∃ a ∈ addrs, s.ownerOf a ≠ none) := by
  match addrs, hcount, h with
  | [], _, _ => exact .of_ok rfl ⟨refl_of _ s, fun _ h => nomatch h⟩
  | [a], _, h =>
    refine .bind ((claimMemory_spec (h a List.mem_cons_self)).imp (fun _ _ h => h) ?_) ?_
    · rintro e s' ⟨rfl, ha⟩
      exact ⟨rfl, a, List.mem_cons_self, ha⟩
    · rintro ⟨⟩ s' ⟨hb, ha⟩
      exact .of_ok rfl ⟨hb, fun x hx => List.mem_singleton.mp hx ▸ ha⟩

/-! ### Functions -/

theorem size_ownFuncs : (m.ownFuncs place : Array (FuncEntity σ)).size = m.code.size := by
  unfold Module.ownFuncs
  simp

theorem getElem?_ownFuncs {k : Nat} (hk : k < m.code.size) :
    (m.ownFuncs place : Array (FuncEntity σ))[k]? = some (.wasm (m.ownFunc place k)) := by
  unfold Module.ownFuncs
  simp [hk]

theorem mem_ownFuncs {f : FuncEntity σ} (hf : f ∈ m.ownFuncs place) :
    ∃ k < m.code.size, f = .wasm (m.ownFunc place k) := by
  unfold Module.ownFuncs at hf
  obtain ⟨k, hk, rfl⟩ := List.mem_map.mp (List.mem_toArray.mp hf)
  exact ⟨k, List.mem_range.mp hk, rfl⟩

variable (place) in
/-- The functions that a module defines have signatures. -/
theorem ownFunc_type (hm : m.Checked features) {k : Nat} (hk : k < m.code.size) :
    ∃ t, m.functions[k]? = some t ∧
      m.funcType? (m.importedCount .func + k) = some (m.ownFunc place k).type ∧
      m.types[t]? = some (m.ownFunc place k).type := by
  have hk : k < m.functions.length := by rw [← hm.bodies, ← hm.codeSize]; exact hk
  have hown := List.getElem?_eq_getElem hk
  obtain ⟨type, ht, htype⟩ := hm.funcType ((m.funcSpace_own k).trans hown)
  have hf : (m.ownFunc place k).type = type := by rw [Module.ownFunc, htype]; rfl
  exact ⟨_, hown, hf ▸ htype, hf ▸ ht⟩

theorem ownFunc_declared (hv : m.Valid) (hm : m.Checked features) {k : Nat} (hk : k < m.code.size) :
    (m.ownFunc place k).Declared where
  valid := hv
  own := Nat.le_add_right _ _
  type := by
    obtain ⟨-, -, ht, -⟩ := ownFunc_type place hm hk
    exact ht

variable (place) in
theorem builds_ownFuncs (hv : m.Valid) (hm : m.Checked features) :
    Builds place (m.ownFuncs place) s { s with funcs := s.funcs ++ m.ownFuncs place } := by
  have hext : Extends s { s with funcs := s.funcs ++ m.ownFuncs place } :=
    { refl_of Extends s with funcs := .append (fun _ => rfl) _ }
  exact {
    toExtends := hext
    funcs_eq := rfl
    instances_eq := rfl
    owner := fun _ => .inl rfl
    typed := fun ht => ht.extend hext
      (fun f hf => (Array.mem_append.mp hf).imp (fun h => h) fun hf => by
        obtain ⟨k, hk, hfk⟩ := mem_ownFuncs hf
        cases hfk
        exact ownFunc_declared hv hm hk)
      (fun _ => .inl) (fun _ => .inl) fun _ => .inl }

/-- The functions of a module get consecutive addresses. -/
theorem makeFuncs_eq (hm : m.Checked features) :
    makeFuncs m place (m.importedCount .func) s = .ok (List.range' s.funcs.size m.code.size)
      { s with funcs := s.funcs ++ m.ownFuncs place } := by
  -- the induction is on how many functions are left to make, with those before it in the store
  have hmake (n : Nat) : ∀ (k : Nat) (s : Store σ), k + n = m.code.size →
      ((List.range' k n).mapM fun i => do
        let index := m.importedCount .func + i
        let type ← outside (m.funcType? index)
        addFunc (.wasm ⟨type, place, m, index⟩) : StoreM σ (List Nat)) s =
      .ok (List.range' s.funcs.size n)
        { s with funcs := s.funcs ++ ((List.range' k n).map fun k => .wasm (m.ownFunc place k)).toArray } := by
    induction n with
    | zero =>
      intro k s _
      simp only [List.range'_zero, List.mapM_nil, List.map_nil, Array.append_empty]
      rfl
    | succ n ih =>
      intro k s hk
      obtain ⟨t, -, htype, -⟩ := ownFunc_type place hm (k := k) (by omega)
      have hone : (do
          let index := m.importedCount .func + k
          let type ← outside (m.funcType? index)
          addFunc (.wasm ⟨type, place, m, index⟩) : StoreM σ Nat) s =
          .ok s.funcs.size { s with funcs := s.funcs.push (.wasm (m.ownFunc place k)) } := by
        dsimp only
        rw [htype]
        rfl
      rw [List.range'_succ, List.mapM_cons, estate_bind_of_ok hone,
        estate_bind_of_ok (ih (k + 1) _ (by omega))]
      change EStateM.Result.ok _ _ = _
      rw [Array.size_push, ← List.range'_succ, List.map_cons]
      congr 2
      rw [Array.push_eq_append, Array.append_assoc]
      simp
  have h := hmake m.code.size 0 s (by omega)
  unfold makeFuncs Module.ownFuncs
  rw [List.range_eq_range']
  exact h

/-! ### Tables and memories -/

theorem builds_addTable {t : Table} (ht : ∀ c ∈ t.cells, c = 0) :
    Builds place #[] s { s with tables := s.tables.push t } := by
  have hext : Extends s { s with tables := s.tables.push t } :=
    { refl_of Extends s with tables := .push (refl_of _) t }
  exact {
    toExtends := hext
    funcs_eq := Array.append_empty.symm
    instances_eq := rfl
    owner := fun _ => .inl rfl
    typed := fun hs => hs.extend hext (fun _ => .inl)
      (fun u hu => (Array.mem_push.mp hu).imp (fun h => h) fun hu c hc => by
        subst hu
        rw [ht c hc]
        exact fits_zero _)
      (fun _ => .inl) fun _ => .inl }

theorem fits_self (l : Limits) : l.fits l = true := by
  unfold Limits.fits
  cases l.max <;> simp

variable (place) in
theorem makeTables_spec (m : Module) (s : Store σ) :
    Yields (makeTables m) s
      (fun addrs s' => Builds place #[] s s' ∧ List.Forall₂ s'.TableAt m.tables addrs ∧
        ∀ t ∈ m.tables, ¬maxTableElements < t.limits.min)
      (fun _ s' => Builds place #[] s s' ∧ ∃ t ∈ m.tables, maxTableElements < t.limits.min) := by
  refine mapM_makes (fun _ _ _ _ h ht => ht.mono h.toExtends) m.tables s fun type _ s => ?_
  unfold Table.allocate
  by_cases hbig : maxTableElements < type.limits.min
  · rw [if_pos hbig]
    exact .of_error rfl ⟨refl_of _ s, hbig⟩
  · rw [if_neg hbig]
    refine .of_ok rfl ⟨builds_addTable fun c hc => ?_, ?_, hbig⟩
    · exact (Array.mem_replicate.mp hc).2
    · refine ⟨_, Array.getElem?_push_size, rfl, ?_⟩
      rw [Table.type, Table.size, Array.size_replicate]
      exact fits_self type.limits

theorem builds_addMemory {mem : Memory} :
    Builds place #[] s { s with memories := s.memories.push ⟨mem, some place⟩ } := by
  have hext : Extends s { s with memories := s.memories.push ⟨mem, some place⟩ } :=
    { refl_of Extends s with
      memories := .push (fun e : MemoryEntry => refl_of Memory.Grows e.memory) _ }
  exact {
    toExtends := hext
    funcs_eq := Array.append_empty.symm
    instances_eq := rfl
    owner := fun a => by
      unfold ownerOf
      rw [Array.getElem?_push]
      split
      · next ha => exact .inr ⟨by rw [ha, Array.getElem?_eq_none_iff.mpr (Nat.le_refl _)]; rfl, rfl⟩
      · exact .inl rfl
    typed := fun hs => hs.extend hext (fun _ => .inl) (fun _ => .inl) (fun _ => .inl) fun _ => .inl }

variable (place) in
/-- Memories that the module defines belong to the instance from the start. -/
theorem makeMemories_spec (hm : m.Checked features) (s : Store σ) :
    Yields (makeMemories m place) s
      (fun addrs s' => Builds place #[] s s' ∧
        List.Forall₂ (fun l a => s'.MemoryAt l a ∧ s'.ownerOf a = some place) m.memories addrs ∧
        ∀ l ∈ m.memories, ¬s.config.maxMemoryPages < l.min)
      (fun _ s' => Builds place #[] s s' ∧ ∃ l ∈ m.memories, s.config.maxMemoryPages < l.min) := by
  refine .of_get ?_
  refine mapM_makes (fun _ _ _ _ h ha => ⟨ha.1.mono h.toExtends, h.owner_kept ha.2⟩) m.memories s
    fun l hl s' => ?_
  have hmax := hm.memoryLimits l hl
  by_cases hbig : s.config.maxMemoryPages < l.min
  · obtain ⟨fault, hfault⟩ := Memory.allocate_eq_error hbig
    rw [hfault]
    exact .of_error rfl ⟨refl_of _ s', hbig⟩
  · obtain ⟨mem, hmem, hlimits⟩ := Memory.allocate_eq_ok (Nat.le_of_not_lt hbig) hmax
    rw [hmem]
    refine .of_ok rfl ⟨builds_addMemory, ⟨⟨_, Array.getElem?_push_size, ?_⟩, ?_⟩, hbig⟩
    · rw [hlimits]
      exact fits_self l
    · unfold ownerOf
      rw [Array.getElem?_push_size]
      rfl

end Store

end WasmEngine
