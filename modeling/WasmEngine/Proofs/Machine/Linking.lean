import WasmEngine.Proofs.Machine.Failures
import WasmEngine.Proofs.Machine.Soundness

/-!
# What a link error leaves behind

Imports are found and checked before anything is made, so most link errors come too early to leave a trace. One
comes late: that a memory belongs to another instance is only noticed when the new instance claims it, and by
then the linker has made a function from each host function that is imported. Those functions stay.

`Machine.Reached.link_error_store` says exactly what a link error leaves: the store as it was, behind whose
functions there are the host functions of the imports, if all imports were found. So the store is untouched
unless that happens.
-/

namespace WasmEngine

variable {σ : Type}

/-- The host function of a definition. -/
def Definition.host? : Definition σ → Option (HostFunc σ)
  | .host f => some f
  | .entity _ => none

/-- The host functions that are defined for the imports of a module, if all of its imports are found. -/
def Linker.hostsFor (l : Linker σ) (s : Store σ) (m : Module) : List (HostFunc σ) :=
  match l.resolve s m with
  | .ok definitions => definitions.filterMap Definition.host?
  | .error _ => []

namespace Store

variable {s s' : Store σ} {m : Module} {entities : List Extern}

/-- The store with more host functions. -/
def withHosts (s : Store σ) (fs : List (HostFunc σ)) : Store σ :=
  { s with funcs := s.funcs ++ (fs.map .host).toArray }

@[simp] theorem withHosts_nil (s : Store σ) : s.withHosts [] = s := by
  simp [withHosts]

@[simp] theorem withHosts_withHosts (s : Store σ) (fs gs : List (HostFunc σ)) :
    (s.withHosts fs).withHosts gs = s.withHosts (fs ++ gs) := by
  simp [withHosts]

theorem withHosts_eq_self {fs : List (HostFunc σ)} : s.withHosts fs = s ↔ fs = [] := by
  refine ⟨fun h => ?_, fun h => by rw [h, withHosts_nil]⟩
  have hsize := congrArg (fun s : Store σ => s.funcs.size) h
  simpa [withHosts] using hsize

/-! ### Instantiation -/

/-- Who owns nothing has nothing to give up. -/
theorem release_of_fresh {place : Nat} (h : ∀ a, s.ownerOf a ≠ some place) : s.release place = s := by
  have hmap : s.memories.map (fun e => if e.owner = some place then { e with owner := none } else e) =
      s.memories := by
    refine Array.ext (Array.size_map ..) fun a _ ha => ?_
    rw [Array.getElem_map, if_neg]
    intro howner
    exact h a (by rw [ownerOf, Array.getElem?_eq_getElem ha]; exact howner)
  rw [release, hmap]

section

open Error

theorem never_outside {α : Type} : ∀ o : Option α, Never Foreign (outside o : StoreM σ α)
  | some a => .pure a
  | none => .throw (not_foreign_runtime _)

theorem never_constCell (funcs globals : Array Nat) (e : ConstExpr) :
    Never Foreign (constCell funcs globals e : StoreM σ Cell) :=
  .getBind fun _ => never_outside _

theorem never_makeFuncs (m : Module) (place imported : Nat) :
    Never Foreign (makeFuncs m place imported : StoreM σ (List Nat)) :=
  .mapM _ fun _ _ => .bind (never_outside _) fun _ => .modifyGet _

theorem never_makeTables (m : Module) : Never Foreign (makeTables m : StoreM σ (List Nat)) :=
  .mapM _ fun _ _ => by
    split
    · exact .modifyGet _
    · exact .throw (not_foreign_resource _)

theorem never_makeMemories (m : Module) (place : Nat) :
    Never Foreign (makeMemories m place : StoreM σ (List Nat)) :=
  .getBind fun _ => .mapM _ fun _ _ => by
    split
    · exact .modifyGet _
    · exact .throw (not_foreign_resource _)

theorem never_makeGlobals (funcs : Array Nat) : ∀ (defs : List GlobalDef) (globals : Array Nat),
    Never Foreign (makeGlobals funcs defs globals : StoreM σ (Array Nat))
  | [], _ => .pure _
  | _ :: defs, _ => .bind (never_constCell _ _ _) fun _ => .bind (.modifyGet _) fun _ =>
      never_makeGlobals funcs defs _

theorem never_applyElement (place : Nat) (segment : ElementSegment) (index : Nat) :
    Never Foreign (applyElement place segment index : StoreM σ Unit) := by
  unfold applyElement
  split
  · exact .pure _
  · exact .modify _
  · exact .bind (.getBind fun _ => never_outside _) fun _ => .bind (never_outside _) fun _ =>
      .bind (never_outside _) fun _ => .bind (never_constCell _ _ _) fun _ =>
      .bind (never_foreign_onTable (Table.never_changeIf _ _)) fun _ => .modify _

theorem never_applyData (place : Nat) (segment : DataSegment) (index : Nat) :
    Never Foreign (applyData place segment index : StoreM σ Unit) := by
  unfold applyData
  split
  · exact .pure _
  · exact .bind (.getBind fun _ => never_outside _) fun _ => .bind (never_outside _) fun _ =>
      .bind (never_constCell _ _ _) fun _ =>
      .bind (never_foreign_onMemory (Memory.never_changeIf _ _)) fun _ => .modify _

/-- An instance claims the memories that it imports, and what it does behind that fails with nothing foreign. -/
theorem makeInstance_eq (m : Module) (entities : List Extern) (place : Nat) : ∃ rest : StoreM σ Unit,
    makeInstance m entities place = ((Extern.memoryAddrs entities).forM (claimMemory place) >>= fun _ => rest) ∧
      Never Foreign rest := by
  refine ⟨_, rfl, ?_⟩
  exact .bind (never_makeFuncs _ _ _) fun _ => .bind (never_makeTables _) fun _ =>
    .bind (never_makeMemories _ _) fun _ => .bind (never_makeGlobals _ _ _) fun _ =>
    .bind (.mapM _ fun _ _ => .map (.mapM _ fun _ _ => never_constCell _ _ _)) fun _ =>
    .getBind fun _ => .bind (.mapM _ fun _ _ => never_outside _) fun _ => .modify _

/-- Nor does what an instantiation does behind the instance that it has made. -/
theorem instantiate_eq (m : Module) (entities : List Extern) (s : Store σ) : ∃ rest : StoreM σ (Option Nat),
    instantiate m entities s = (match s.checkImports m entities with
      | .error e => .error e s
      | .ok () => match (makeInstance m entities s.instances.size >>= fun _ => rest) s with
        | .ok start s' => .ok start s'
        | .error e s' => .error e (s'.release s.instances.size)) ∧ Never Foreign rest := by
  refine ⟨_, rfl, .bind (.bind (.forM _ fun _ _ => never_applyElement _ _ _) fun _ =>
    .forM _ fun _ _ => never_applyData _ _ _) fun _ => ?_⟩
  split
  · exact .pure _
  · exact .bind (.getBind fun _ => never_outside _) fun _ => .map (never_outside _)

/-- All link errors come before the functions of the module are made. -/
theorem makeInstance_link (hv : m.Valid) (h : s.checkImports m entities = .ok ()) (place : Nat) :
    Yields (makeInstance m entities place) s (fun _ _ => True) (fun e s' => e.IsLink → s' = s) := by
  obtain ⟨features, hm⟩ := hv.checked
  have hmemories := imported_memories (checkImports_eq_ok h)
  have hcount : (Extern.memoryAddrs entities).length ≤ 1 := by
    rw [← hmemories.length_eq]
    exact Nat.le_trans (List.prefix_append _ _).length_le hm.memories
  have hexist : ∀ a ∈ Extern.memoryAddrs entities, a < s.memories.size := by
    intro a ha
    obtain ⟨k, hk⟩ := List.mem_iff_getElem?.mp ha
    obtain ⟨-, -, e, he, -⟩ := forall₂_getElem? hmemories.flip hk
    exact (Array.getElem?_eq_some_iff.mp he).1
  obtain ⟨rest, hmake, hrest⟩ := makeInstance_eq (σ := σ) m entities place
  rw [hmake]
  refine .bind ((claimMemories_spec hcount hexist).imp (fun _ _ h => h) fun _ _ h _ => h.1) ?_
  intro _ s₁ _
  exact (hrest.mono fun _ he => .inl he).yields s₁

/-- **An instantiation that fails with a link error has done nothing.** -/
theorem instantiate_link (hfresh : ∀ a, s.ownerOf a ≠ some s.instances.size) (hv : m.Valid) {e : Error}
    (h : instantiate m entities s = .error e s') (he : e.IsLink) : s' = s := by
  obtain ⟨rest, hinstantiate, hrest⟩ := instantiate_eq m entities s
  rw [hinstantiate] at h
  split at h
  · cases h
    rfl
  next haccepted =>
  have hbuild : Yields (makeInstance m entities s.instances.size >>= fun _ => rest) s (fun _ _ => True)
      (fun e s' => e.IsLink → s' = s) :=
    .bind (makeInstance_link hv haccepted _) fun _ s₁ _ => (hrest.mono fun _ he => .inl he).yields s₁
  split at h
  · nomatch h
  · next hb =>
    cases h
    rw [hbuild.error_of hb he, release_of_fresh hfresh]

end

/-! ### Imports -/

theorem externType_withHosts {e : Extern} {type : ExternType} (fs : List (HostFunc σ))
    (h : s.externType e = .ok type) : (s.withHosts fs).externType e = .ok type := by
  cases e with
  | func handle =>
    obtain ⟨f, hf, h⟩ := bind_eq_ok.mp h
    obtain ⟨⟨⟩, hid, hf⟩ := bind_eq_ok.mp hf
    split at hf
    · next entry hentry =>
      cases pure_eq_ok.mp hf
      have hentry' : (s.withHosts fs).funcs[handle.index]? = some f := by
        rw [withHosts, Array.getElem?_append_left (Array.getElem?_eq_some_iff.mp hentry).1]
        exact hentry
      refine bind_eq_ok.mpr ⟨f, bind_eq_ok.mpr ⟨(), hid, ?_⟩, h⟩
      rw [hentry']
      rfl
    · nomatch hf
  -- the other arrays of the store are the same ones
  | table | memory | global => exact h

theorem checkImport_withHosts {i : Import} {e : Extern} (fs : List (HostFunc σ))
    (h : s.checkImport m i e = .ok ()) : (s.withHosts fs).checkImport m i e = .ok () := by
  obtain ⟨⟨⟩, hid, h⟩ := bind_eq_ok.mp h
  refine bind_eq_ok.mpr ⟨(), hid, ?_⟩
  cases hi : m.importType? i with
  | none =>
    rw [hi] at h
    nomatch h
  | some asked =>
    rw [hi] at h
    obtain ⟨offered, hoffered, h⟩ := bind_eq_ok.mp h
    exact bind_eq_ok.mpr ⟨offered, externType_withHosts fs hoffered, h⟩

/-- A function that was made for an import from a host function with its signature fits the import. -/
theorem checkImport_of_checkHost {i : Import} {f : HostFunc σ} (h : Linker.checkHost m i f = .ok ()) :
    (s.withHosts [f]).checkImport m i (.func ⟨s.id, s.funcs.size⟩) = .ok () := by
  have hid : (s.withHosts [f]).checkId s.id = .ok () := if_pos rfl
  have hf : (s.withHosts [f]).funcs[s.funcs.size]? = some (.host f) := by simp [withHosts]
  unfold Linker.checkHost at h
  cases hi : m.importType? i with
  | none =>
    rw [hi] at h
    nomatch h
  | some asked =>
    rw [hi] at h
    cases asked with
    | func type =>
      dsimp only at h
      split at h
      · next htype =>
        have htype' : (s.withHosts [f]).externType (.func ⟨s.id, s.funcs.size⟩) = .ok (.func type) := by
          refine bind_eq_ok.mpr ⟨.host f, bind_eq_ok.mpr ⟨(), hid, ?_⟩, ?_⟩
          · rw [hf]
            rfl
          · rw [htype]
            rfl
        refine bind_eq_ok.mpr ⟨(), hid, ?_⟩
        rw [hi]
        refine bind_eq_ok.mpr ⟨.func type, htype', ?_⟩
        unfold ExternType.checkImport
        dsimp only
        rw [if_pos rfl]
        rfl
      · nomatch h
    | table | memory | global => nomatch h

variable {l : Linker σ}

/-- The entity that is placed for an import fits it, also if others were placed before it. -/
theorem place_spec {i : Import} {d : Definition σ} (h : l.resolveImport s m i = .ok d)
    (fs : List (HostFunc σ)) : ∃ e,
    d.place (s.withHosts fs) = .ok e (s.withHosts (fs ++ d.host?.toList)) ∧
      (s.withHosts (fs ++ d.host?.toList)).checkImport m i e = .ok () := by
  unfold Linker.resolveImport at h
  split at h
  · nomatch h
  · next e _ =>
    obtain ⟨⟨⟩, he, h⟩ := bind_eq_ok.mp h
    cases pure_eq_ok.mp h
    refine ⟨e, ?_, ?_⟩
    · rw [Definition.host?, Option.toList_none, List.append_nil]
      rfl
    · exact checkImport_withHosts _ he
  · next f _ =>
    split at h
    · next hf =>
      cases pure_eq_ok.mp h
      have hcheck := checkImport_of_checkHost (s := s.withHosts fs) hf
      rw [withHosts_withHosts] at hcheck
      refine ⟨_, ?_, hcheck⟩
      change EStateM.Result.ok _ { s.withHosts fs with funcs := (s.withHosts fs).funcs.push (.host f) } = _
      rw [Array.push_eq_append]
      exact congrArg _ (withHosts_withHosts s fs [f])
    · nomatch h

/-- **Placing never fails**, and the entities fit the imports as the definitions did. -/
theorem places_spec {imports : List Import} {ds : List (Definition σ)}
    (h : List.Forall₂ (fun i d => l.resolveImport s m i = .ok d) imports ds) (fs : List (HostFunc σ)) :
    ∃ es, (ds.mapM Definition.place : StoreM σ (List Extern)) (s.withHosts fs) =
        .ok es (s.withHosts (fs ++ ds.filterMap Definition.host?)) ∧
      List.Forall₂ (fun i e => (s.withHosts (fs ++ ds.filterMap Definition.host?)).checkImport m i e =
        .ok ()) imports es := by
  induction h generalizing fs with
  | nil =>
    rw [List.filterMap_nil, List.append_nil]
    exact ⟨[], rfl, .nil⟩
  | @cons i d imports ds hd _ ih =>
    obtain ⟨e, he, hfits⟩ := place_spec hd fs
    obtain ⟨es, hes, hall⟩ := ih (fs ++ d.host?.toList)
    have hhosts : fs ++ (d :: ds).filterMap Definition.host? =
        fs ++ d.host?.toList ++ ds.filterMap Definition.host? := by
      cases d <;> simp [Definition.host?, List.filterMap_cons]
    rw [hhosts]
    refine ⟨e :: es, ?_, .cons ?_ hall⟩
    · rw [List.mapM_cons, estate_bind_of_ok he, estate_bind_of_ok hes]
      rfl
    · rw [← withHosts_withHosts]
      exact checkImport_withHosts _ hfits

end Store

namespace Linker

variable {s s' : Store σ} {m : Module} {l : Linker σ}

/-- Instantiation goes on with imports that fit. -/
theorem checkImports_of_resolve {ds : List (Definition σ)} (h : l.resolve s m = .ok ds) :
    ∃ es, (ds.mapM Definition.place : StoreM σ (List Extern)) s = .ok es (s.withHosts (l.hostsFor s m)) ∧
      (s.withHosts (l.hostsFor s m)).checkImports m es = .ok () := by
  obtain ⟨es, hes, hfit⟩ := Store.places_spec (mapM_eq_ok.mp h) []
  rw [Store.withHosts_nil, List.nil_append] at hes
  rw [List.nil_append] at hfit
  have hhosts : l.hostsFor s m = ds.filterMap Definition.host? := by rw [hostsFor, h]
  rw [hhosts]
  refine ⟨es, hes, ?_⟩
  unfold Store.checkImports
  rw [if_neg (by simp [hfit.length_eq])]
  refine forM_eq_ok.mpr fun ⟨i, e⟩ hmem => ?_
  exact (List.forall₂_iff_zip.mp hfit).2 hmem

/-- **What a link error leaves**: the store with the host functions that were made for imports. -/
theorem store_of_link_error (hs : s.Orderly) (hv : m.Valid) {n : Nat} {e : Error}
    (h : Store.complete n (fun s => l.instantiate s m []) s = .error e s') (he : e.IsLink) :
    s' = s.withHosts (l.hostsFor s m) := by
  -- an instantiation that fails at once has halted
  have hhalt {s₁ : Store σ} {e₁ : Error} (hm : l.instantiate s m [] = ⟨s₁, .outcome (.error e₁), []⟩) :
      e = e₁ ∧ s' = s₁ := by
    unfold Store.complete at h
    dsimp only at h
    rw [hm, Machine.run_of_halted rfl] at h
    cases h
    exact ⟨rfl, rfl⟩
  cases hr : l.resolve s m with
  | error e₁ =>
    have hm : l.instantiate s m [] = ⟨s, .outcome (.error e₁), []⟩ := by rw [instantiate, hr]
    rw [(hhalt hm).2, hostsFor, hr, Store.withHosts_nil]
  | ok ds =>
    obtain ⟨es, hes, -⟩ := checkImports_of_resolve hr
    have hm : l.instantiate s m [] = Machine.instantiate (s.withHosts (l.hostsFor s m)) m es [] := by
      rw [instantiate, hr]
      dsimp only
      rw [hes]
    cases hi : Store.instantiate m es (s.withHosts (l.hostsFor s m)) with
    | error e₁ s₁ =>
      have hm' : l.instantiate s m [] = ⟨s₁, .outcome (.error e₁), []⟩ := by rw [hm, Machine.instantiate, hi]
      obtain ⟨rfl, rfl⟩ := hhalt hm'
      exact Store.instantiate_link (s := s.withHosts _) hs.fresh hv hi he
    | ok start s₁ =>
      -- what fails now is the start function
      have hinsulated : (l.instantiate s m []).Insulated := by
        rw [hm, Machine.instantiate, hi]
        cases start with
        | none => exact Machine.insulated_values
        | some addr => exact Machine.insulated_invoke _ _ _
      unfold Store.complete at h
      dsimp only at h
      split at h
      · nomatch h
      · next hout =>
        cases h
        exact absurd he (hinsulated.not_isLink_outcome hout)
      · nomatch h

end Linker

namespace Machine.Reached

variable {m : Machine σ} {log : List (Event σ)}

/-- **A link error leaves the store as it was, but for host functions.** Whatever store was reached, if a linker fails
with a link error, the store is the same as before, with the host functions behind its functions that were defined
for the imports of the module. It is untouched exactly if there are none, or if not all imports were found. -/
theorem link_error_store (h : Reached m log) {l : Linker σ} {module : Module} (hv : module.Valid) {n : Nat}
    {e : Error} {s' : Store σ}
    (hrun : Store.complete n (fun s => l.instantiate s module []) m.store = .error e s')
    (he : e.category = .link) :
    s' = m.store.withHosts (l.hostsFor m.store module) ∧
      (s' = m.store ↔ ∀ definitions, l.resolve m.store module = .ok definitions →
        ∀ f, .host f ∉ definitions) := by
  have hs' := Linker.store_of_link_error h.orderly.store hv hrun he
  refine ⟨hs', ?_⟩
  rw [hs', Store.withHosts_eq_self, Linker.hostsFor]
  cases l.resolve m.store module with
  | error => simp
  | ok definitions =>
    simp only [Except.ok.injEq, forall_eq', List.filterMap_eq_nil_iff]
    constructor
    · intro hnone f hf
      nomatch hnone _ hf
    · intro hnone d hd
      cases d with
      | entity => rfl
      | host f => exact absurd hd (hnone f)

end Machine.Reached

/-! ### A memory that is taken -/

/-- A module that imports a function and a memory. -/
def Module.tenant : Module :=
  (Module.ofBytes ⟨#[0, 97, 115, 109, 1, 0, 0, 0, 1, 4, 1, 96, 0, 0, 2, 14, 2, 1, 104, 1, 102, 0, 0, 1, 104, 1, 109, 2,
    0, 0]⟩ .all {}).toOption.get (by decide +kernel)

/-- A host function that does nothing. -/
def HostFunc.idle : HostFunc Unit := ⟨⟨[], []⟩, fun _ => .return_ []⟩

/-- The module gets a function and a memory. -/
def HostProgram.letting : HostProgram Unit :=
  .operate (.newMemory ⟨0, none⟩) fun _ =>
  .define HostFunc.idle.type HostFunc.idle.body fun _ =>
  .instantiate .tenant [.func ⟨0, 0⟩, .memory ⟨0, 0⟩] fun _ => .return_ []

/-- The machine behind that. -/
def Machine.letOut : Machine Unit := Machine.run 5 ⟨.new 0 {} (), .host none ⟨[], []⟩ .letting, []⟩

theorem HostProgram.wellFormed_letting : letting.WellFormed :=
  fun _ => ⟨fun _ => trivial, fun _ => ⟨Module.valid_get _, fun _ => trivial⟩⟩

theorem Machine.reached_letOut : ∃ log, Machine.Reached letOut log :=
  (Machine.Reached.program (.empty 0 {} ()) HostProgram.wellFormed_letting).run 5

/-- A linker with the same memory, and a function to be made. -/
def Linker.subletting : Linker Unit where
  definitions := [(⟨"h", "f"⟩, .host .idle), (⟨"h", "m"⟩, .entity (.memory ⟨0, 0⟩))]

/-- The memory is noticed to be taken when the function is there already. -/
theorem Linker.link_error_subletting :
    ∃ e s', Store.complete 0 (fun s => Linker.subletting.instantiate s .tenant []) Machine.letOut.store =
      .error e s' ∧ e.category = .link ∧ s' ≠ Machine.letOut.store := by
  have hfails : (match Store.complete 0 (fun s => Linker.subletting.instantiate s .tenant [])
        Machine.letOut.store with
      | .ok .. => false
      | .error e _ => decide (e.category = .link)) = true := by decide +kernel
  obtain ⟨log, h⟩ := Machine.reached_letOut
  split at hfails
  · nomatch hfails
  next e s' hrun =>
  have he := of_decide_eq_true hfails
  refine ⟨e, s', hrun, he, fun hsame => ?_⟩
  rw [(h.link_error_store (Module.valid_get _) hrun he).1, Store.withHosts_eq_self] at hsame
  exact absurd (congrArg List.length hsame) (by decide +kernel)

end WasmEngine
