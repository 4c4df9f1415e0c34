import WasmEngine.Proofs.Machine.Isolation

/-!
# Sandboxes

Some instances of a store, and the functions that their code can get hold of, are a sandbox (`Store.part`). If these
functions are all WebAssembly functions of the instances or harmless host functions, then a call of one of them changes
nothing but what the instances have in their lists, and depends on nothing else: in two stores that agree on that, it
has the same outcome and the same effect (`Machine.call_isolated`).

It is not enough that host functions leave the store alone. One that returns a function of its choice hands it to the
code that called it, which may put it in a table and call it (`Machine.not_isolated`).
-/

namespace WasmEngine

variable {σ : Type} {s t : Store σ} {S F : Nat → Prop}

namespace Store

/-- **What belongs to instances** `S`: what they have in their lists, besides the functions `F` and the host objects
`E`. -/
def part (s : Store σ) (S F E : Nat → Prop) : Domain where
  funcs := F
  externs := E
  tables a := ∃ p i, S p ∧ s.instances[p]? = some i ∧ a ∈ i.tables
  memories a := ∃ p i, S p ∧ s.instances[p]? = some i ∧ a ∈ i.memories
  globals a := ∃ p i, S p ∧ s.instances[p]? = some i ∧ a ∈ i.globals
  instances := S

/-- There is a host object in both stores, or in neither. -/
def Shared (s t : Store σ) (a : Nat) : Prop := a < s.externs.size ↔ a < t.externs.size

/-- What fits two stores refers to host objects that there are in both. -/
theorem admits_shared {type : ValueType} {c : Cell} (h : (s.part S F fun _ => True).Admits type c)
    (hs : s.Fits type c) (ht : t.Fits type c) : (s.part S F (s.Shared t)).Admits type c := by
  cases type with
  | ref type => cases type with
    | funcref => exact h
    | externref => exact fun a ha => ⟨fun _ => ht.toRef_lt ha, fun _ => hs.toRef_lt ha⟩
  | _ => trivial

/-- **Functions are all that has to be kept in.** Host objects in a store that is well typed are there, and so they are
in any other that has the same references in the same places. -/
theorem Confined.shared (h : s.Confined (s.part S F fun _ => True)) (hs : s.Typed) (ht : t.Typed)
    (halike : Alike (s.part S F (s.Shared t)) s t) : s.Confined (s.part S F (s.Shared t)) where
  narrow := h.narrow
  funcs := h.funcs
  instances a i ha hi := by
    have hwithin := h.instances a i ha hi
    have hi' : t.instances[a]? = some i := (halike.instances a ha).trans hi
    refine { hwithin.toLinks with elements := fun x segment items hsegment hitems c hc => ?_ }
    have hfits {r : Store σ} (hr : i.Typed r) : r.Fits (.ref segment.type) c := by
      obtain ⟨items', hitems', hall⟩ := forall₂_getElem? hr.elements hsegment
      rw [Array.getElem?_toList] at hitems'
      cases hitems.symm.trans hitems'
      exact hall c hc
    exact admits_shared (hwithin.elements x segment items hsegment hitems c hc)
      (hfits (hs.instances i (Array.mem_of_getElem? hi))) (hfits (ht.instances i (Array.mem_of_getElem? hi')))
  tables a table ha htable c hc := by
    have htable' : t.tables[a]? = some table := (halike.tables a ha).trans htable
    exact admits_shared (h.tables a table ha htable c hc) (hs.tables table (Array.mem_of_getElem? htable) c hc)
      (ht.tables table (Array.mem_of_getElem? htable') c hc)
  globals a g ha hg := by
    have hg' : t.globals[a]? = some g := (halike.globals a ha).trans hg
    exact admits_shared (h.globals a g ha hg) (hs.globals g (Array.mem_of_getElem? hg))
      (ht.globals g (Array.mem_of_getElem? hg'))

end Store

namespace Machine

/-- **Calls stay in their sandbox.** In a store that is well typed and in order, and whose functions are bound to their
instances, let all functions in the lists, tables, globals and element segments of instances be among certain
functions, and let these be WebAssembly functions of the instances and harmless host functions. Then a call of one of
them with arguments that refer to no other function leaves everything that the instances do not have as it was. In any
other store that agrees on what the instances have, it has the same outcome, and leaves what they have the same. -/
theorem call_isolated (hs : s.Typed) (horderly : s.Orderly) (hb : s.Bound) (ht : t.Typed)
    (hconfined : s.Confined (s.part S F fun _ => True)) (htame : s.Tame (s.part S F (s.Shared t)))
    (halike : Store.Alike (s.part S F (s.Shared t)) s t) {addr : Nat} (haddr : F addr) {args : List Value}
    (hargs : ∀ v ∈ args, (s.part S F (s.Shared t)).Allows v) (n : Nat) :
    Store.Spares (s.part S F (s.Shared t)) s ((call s ⟨s.id, addr⟩ args [] : Machine σ).run n).store ∧
    ((call t ⟨t.id, addr⟩ args [] : Machine σ).run n).outcome? =
      ((call s ⟨s.id, addr⟩ args [] : Machine σ).run n).outcome? ∧
    Store.Alike (s.part S F (s.Shared t)) ((call s ⟨s.id, addr⟩ args [] : Machine σ).run n).store
      ((call t ⟨t.id, addr⟩ args [] : Machine σ).run n).store := by
  generalize hD : s.part S F (s.Shared t) = D at *
  have hin : s.TypedIn D := ⟨hs, hD ▸ hconfined.shared hs ht (hD ▸ halike)⟩
  have hfunc : D.funcs addr := hD ▸ haddr
  have hstore : Store.Twins D s s t :=
    ⟨halike, Store.spares_refl D s, fun a i ha hi => (hin.confined.instances a i ha hi).toLinks⟩
  have hguests : ∀ w ∈ ([] : List (Waiting σ)), w.Guest := fun _ hw => absurd hw List.not_mem_nil
  have hrun : Twins D s ((call s ⟨s.id, addr⟩ args [] : Machine σ).run n) ((call t ⟨t.id, addr⟩ args []).run n) := by
    cases hcheck : checkCall s ⟨s.id, addr⟩ args with
    | error e =>
      -- the call is refused in both stores
      have hcheck' := (checkCall_eq hstore hfunc hargs).trans hcheck
      rw [call, call, hcheck, hcheck', run_of_halted rfl, run_of_halted rfl]
      exact twins_outcome hstore hguests trivial
    | ok =>
      obtain ⟨e, he, hentity, hvalues⟩ := checkCall_spec hcheck
      have hadmits : ∀ v ∈ args, D.Admits v.type v.toCell := fun v hv => (hargs v hv).admits
      have htwins : Twins D s (call s ⟨s.id, addr⟩ args []) (call t ⟨t.id, addr⟩ args []) := by
        rw [call, call, hcheck, checkCall_eq hstore hfunc hargs, hcheck]
        exact twins_invoke hstore hguests htame hentity hfunc (fitsIn_args hvalues hadmits) hargs
      obtain ⟨hsound, horderly', hb'⟩ := call_starts hin horderly hb hcheck he hfunc hadmits
      exact htwins.run htame hsound horderly' hb' n
  exact ⟨hrun.store.spares, hrun.outcome_eq, hrun.store.alike⟩

end Machine

/-! ### A lodger and its neighbour -/

/-- A module with a global, and a function that sets it to seven. -/
def Module.neighbour : Module :=
  (Module.ofBytes ⟨#[0, 97, 115, 109, 1, 0, 0, 0, 1, 4, 1, 96, 0, 0, 3, 2, 1, 0, 6, 6, 1, 127, 1, 65, 0, 11, 10, 8, 1,
    6, 0, 65, 7, 36, 0, 11]⟩ .all {}).toOption.get (by decide +kernel)

/-- A module that hands one of its functions, which counts in a global, to a function that it imports. What comes back
it puts into its table and calls. Then it returns its count. -/
def Module.lodger : Module :=
  (Module.ofBytes ⟨#[0, 97, 115, 109, 1, 0, 0, 0, 1, 13, 3, 96, 0, 0, 96, 1, 112, 1, 112, 96, 0, 1, 127, 2, 7, 1, 1,
    104, 1, 102, 0, 1, 3, 3, 2, 0, 2, 4, 4, 1, 112, 0, 2, 6, 6, 1, 127, 1, 65, 0, 11, 9, 7, 1, 0, 65, 1, 11, 1, 1, 10,
    29, 2, 9, 0, 35, 0, 65, 1, 106, 36, 0, 11, 17, 0, 65, 0, 210, 1, 16, 0, 38, 0, 65, 0, 17, 0, 0, 35, 0, 11]⟩ .all
    {}).toOption.get (by decide +kernel)

/-- Both are instantiated, the lodger with a host function. -/
def HostProgram.lodging (body : List Value → HostProgram Unit) : HostProgram Unit :=
  .define ⟨[.ref .funcref], [.ref .funcref]⟩ body fun _ =>
  .instantiate .neighbour [] fun _ =>
  .instantiate .lodger [.func ⟨0, 0⟩] fun _ => .return_ []

/-- The instance that a function runs in. -/
def FuncEntity.instance? : FuncEntity σ → Option Nat
  | .wasm f => some f.instance_
  | .host _ => none

/-- Both have moved in. -/
def Store.Lodges (s : Store Unit) : Prop :=
  s.funcs.map FuncEntity.instance? = #[none, some 0, some 1, some 1] ∧
  s.instances.map (fun i => (i.funcs, i.globals, i.elements)) = #[(#[1], #[0], #[]), (#[0, 2, 3], #[1], #[#[]])] ∧
  s.tables.map (·.cells) = #[#[0, 3]] ∧ s.globals.map (·.type.value) = #[.i32, .i32]

instance (s : Store Unit) : Decidable s.Lodges := inferInstanceAs (Decidable (_ ∧ _))

namespace Machine

/-- The machine after some steps of that. After five of them, both modules are instantiated. -/
def lodging (body : List Value → HostProgram Unit) (n : Nat) : Machine Unit :=
  run n ⟨.new 0 {} (), .host none ⟨[], []⟩ (.lodging body), []⟩

/-- The functions that the lodger can get hold of. -/
def Lodged (a : Nat) : Prop := a = 0 ∨ a = 2 ∨ a = 3

/-- Whether the next step may strand functions. -/
def oversized? (m : Machine Unit) : Bool :=
  match m.event? with
  | some (.instantiation s m _) => decide (m.Oversized s.config)
  | _ => false

variable {body : List Value → HostProgram Unit} (hbody : ∀ args, (body args).WellFormed)

include hbody

theorem reached_lodging (n : Nat) : ∃ log, Reached (lodging body n) log := by
  have hstart : Reached (lodging body 0) [] :=
    .program (.empty 0 {} ()) ⟨hbody, fun _ => ⟨Module.valid_get _, fun _ => ⟨Module.valid_get _, fun _ => trivial⟩⟩⟩
  exact hstart.run n

theorem wellFormed_lodging {n : Nat} (h : ∀ k < n, (lodging body k).oversized? = false) :
    (lodging body n).store.Typed ∧ (lodging body n).store.Orderly ∧ (lodging body n).store.Bound := by
  have hb : (lodging body n).store.Bound := by
    induction n with
    | zero => exact Store.bound_new 0 {} ()
    | succ n ih =>
      obtain ⟨log, hreached⟩ := reached_lodging hbody n
      have hn := h n (Nat.lt_succ_self n)
      rw [lodging, run_succ]
      refine (hreached.moves.bound_iff hreached.orderly.store).mpr
        ⟨ih fun k hk => h k (Nat.lt_succ_of_lt hk), fun e he => ?_⟩
      unfold oversized? at hn
      rw [he] at hn
      cases e with
      | instantiation => exact fun hstrands => absurd hstrands.2.1 (of_decide_eq_false hn)
      | startFailure => exact id
  obtain ⟨log, hreached⟩ := reached_lodging hbody n
  exact ⟨(hreached.sound hb).typed.typed, hreached.orderly.store, hb⟩

/-- The host function is the first one, and stays there. -/
theorem host_lodging (n : Nat) :
    (lodging body (n + 1)).store.funcs[0]? = some (.host ⟨⟨[.ref .funcref], [.ref .funcref]⟩, body⟩) := by
  induction n with
  | zero => rfl
  | succ n ih =>
    obtain ⟨log, hreached⟩ := reached_lodging hbody (n + 1)
    obtain ⟨f, hf, rfl⟩ := (hreached.moves.toExtends hreached.orderly.store).funcs 0 _ ih
    rw [lodging, run_succ]
    exact hf

/-- There is no other host function that the lodger can get hold of. -/
theorem host_eq_lodging {n : Nat} (h : (lodging body (n + 1)).store.Lodges) {a : Nat} {f : HostFunc Unit}
    (ha : Lodged a) (hf : (lodging body (n + 1)).store.funcs[a]? = some (.host f)) :
    f = ⟨⟨[.ref .funcref], [.ref .funcref]⟩, body⟩ := by
  have hinstance := congrArg (·[a]?) h.1
  simp only [Array.getElem?_map, hf] at hinstance
  rcases ha with rfl | rfl | rfl
  · cases (host_lodging hbody n).symm.trans hf
    rfl
  · simp [FuncEntity.instance?] at hinstance
  · simp [FuncEntity.instance?] at hinstance

omit hbody

variable {s : Store Unit}

theorem instance_lodging (h : s.Lodges) {i : ModuleInstance} (hi : s.instances[1]? = some i) :
    i.funcs = #[0, 2, 3] ∧ i.globals = #[1] ∧ i.elements = #[#[]] := by
  have hinstance := congrArg (·[1]?) h.2.1
  simp only [Array.getElem?_map, hi] at hinstance
  simpa using hinstance

theorem global_lodging (h : s.Lodges) {a : Nat} {g : Global} (hg : s.globals[a]? = some g) : g.type.value = .i32 := by
  have htype : g.type.value ∈ s.globals.map (·.type.value) := Array.mem_map_of_mem (Array.mem_of_getElem? hg)
  rw [h.2.2.2] at htype
  simpa using htype

/-- **The lodger can get hold of nothing but its own functions and the host function.** -/
theorem confined_lodging (h : s.Lodges) : s.Confined (s.part (· = 1) Lodged fun _ => True) where
  narrow a ha := by
    rcases ha with rfl | rfl | rfl <;> simp [Store.part, Lodged]
  funcs a f ha hf := by
    have hinstance := congrArg (·[a]?) h.1
    simp only [Array.getElem?_map, hf] at hinstance
    rcases ha with rfl | rfl | rfl
    · simp [FuncEntity.instance?] at hinstance
    · simpa [Store.part, FuncEntity.instance?] using hinstance
    · simpa [Store.part, FuncEntity.instance?] using hinstance
  instances a i ha hi := by
    obtain rfl : a = 1 := ha
    obtain ⟨hlist, -, helements⟩ := instance_lodging h hi
    refine {
      funcs := fun a ha => by simpa [hlist, Store.part, Lodged] using ha
      tables := fun a ha => ⟨1, i, rfl, hi, ha⟩
      memories := fun a ha => ⟨1, i, rfl, hi, ha⟩
      globals := fun a ha => ⟨1, i, rfl, hi, ha⟩
      elements := fun x segment items _ hitems c hc => ?_ }
    rw [helements] at hitems
    have hempty : items = #[] := Array.mem_singleton.mp (Array.mem_of_getElem? hitems)
    rw [hempty] at hc
    exact absurd hc (Array.not_mem_empty c)
  tables a table ha htable c hc := by
    have hcells : table.cells ∈ s.tables.map (·.cells) := Array.mem_map_of_mem (Array.mem_of_getElem? htable)
    rw [h.2.2.1, Array.mem_singleton] at hcells
    have hc : c = 0 ∨ c = 3 := by simpa [hcells] using hc
    cases table.element with
    | externref => exact fun _ _ => trivial
    | funcref =>
      intro r hr
      rcases hc with rfl | rfl
      · nomatch hr
      · have href : Cell.toRef 3 = some 2 := by decide
        cases href.symm.trans hr
        exact .inr (.inl rfl)
  globals a g ha hg := by
    rw [global_lodging h hg]
    trivial

/-- The global of the neighbour is not the lodger's. -/
theorem outside_lodging (h : s.Lodges) {E : Nat → Prop} : ¬(s.part (· = 1) Lodged E).globals 0 := by
  rintro ⟨p, i, rfl, hi, hmem⟩
  simp [(instance_lodging h hi).2.1] at hmem

end Machine

/-- **What the neighbour has does not matter to the lodger**, as long as the host function gives back what it was
given. -/
theorem Machine.call_isolated_lodging :
    let s := (lodging .return_ 5).store
    let t := { s.setGlobalCell 0 9 with externs := s.externs.push "" }
    ((call t ⟨t.id, 3⟩ [] [] : Machine Unit).run 20).outcome? = some (.ok [.i32 1]) ∧
    ((call s ⟨s.id, 3⟩ [] [] : Machine Unit).run 20).store.globals[0]? = s.globals[0]? := by
  intro s t
  have hbody : ∀ args, (HostProgram.return_ args : HostProgram Unit).WellFormed := fun _ => trivial
  obtain ⟨hs, horderly, hb⟩ := wellFormed_lodging hbody (n := 5) (by decide +kernel)
  have hlodges : s.Lodges := by decide +kernel
  have hconfined := confined_lodging hlodges
  have ht : t.Typed := by
    have hset : (s.setGlobalCell 0 9).Typed := Store.typed_setGlobalCell hs fun g hg => by
      rw [global_lodging hlodges hg]
      exact show (9 : Cell).toNat < 2 ^ 32 by decide
    exact (Store.typed_perform hset (.newExternref "")).end_of
  have halike : Store.Alike (s.part (· = 1) Lodged (s.Shared t)) s t := {
    config := rfl, fuel := rfl, interrupted := rfl, depth := rfl
    funcs := fun _ _ => rfl, tables := fun _ _ => rfl, memories := fun _ _ => rfl, instances := fun _ _ => rfl
    externs := fun _ ha => ha.symm
    globals := fun a ha => by
      have hne : 0 ≠ a := fun h => outside_lodging hlodges (h ▸ ha)
      change (s.globals.modify 0 _)[a]? = _
      rw [Array.getElem?_modify, if_neg hne] }
  have htame : s.Tame (s.part (· = 1) Lodged (s.Shared t)) := fun a f ha hf => by
    rw [host_eq_lodging hbody hlodges ha hf]
    exact fun args hargs => ⟨.ok args, rfl, hargs⟩
  have hmain : Lodged 3 := .inr (.inr rfl)
  have hargs : ∀ v ∈ ([] : List Value), (s.part (· = 1) Lodged (s.Shared t)).Allows v :=
    fun _ hv => absurd hv List.not_mem_nil
  have hcall := call_isolated hs horderly hb ht hconfined htame halike hmain hargs 20
  refine ⟨hcall.2.1.trans ?_, hcall.1.globals 0 (outside_lodging hlodges)⟩
  decide +kernel

/-- A host function that leaves the store alone: it does nothing but return. -/
def HostFunc.Inert (f : HostFunc σ) : Prop := ∀ args, ∃ outcome, f.body args = .finish outcome

/-- The function of the neighbour is returned, whatever was given. -/
def HostProgram.betray (_ : List Value) : HostProgram Unit := .return_ [.ref .funcref (some 1)]

/-- **It is not enough that host functions leave the store alone.** -/
theorem Machine.not_isolated :
    let s := (lodging .betray 5).store
    (s.Typed ∧ s.Orderly ∧ s.Bound) ∧ s.Confined (s.part (· = 1) Lodged fun _ => True) ∧
    (∀ (a : Nat) f, Lodged a → s.funcs[a]? = some (.host f) → f.Inert) ∧ Lodged 3 ∧
    ¬Store.Spares (s.part (· = 1) Lodged fun _ => True) s
      ((call s ⟨s.id, 3⟩ [] [] : Machine Unit).run 20).store := by
  intro s
  have hbody : ∀ args, (HostProgram.betray args).WellFormed := fun _ => trivial
  have hlodges : s.Lodges := by decide +kernel
  have hs := wellFormed_lodging hbody (n := 5) (by decide +kernel)
  refine ⟨hs, confined_lodging hlodges, ?_, .inr (.inr rfl), fun hspares => ?_⟩
  · intro a f ha hf
    rw [host_eq_lodging hbody hlodges ha hf]
    exact fun _ => ⟨_, rfl⟩
  · have hcell := congrArg (Option.map (·.cell)) (hspares.globals 0 (outside_lodging hlodges))
    exact absurd hcell (by decide +kernel)

end WasmEngine
