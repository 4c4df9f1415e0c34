import WasmEngine.Machine.Step
import WasmEngine.Proofs.Store.Segments

/-!
# Instantiation applies a prefix of the segments

Once the instance is there, its segments are applied in order, those for tables before those for memories. If all
fit, they have been written one over the other, and only then the start function is called. If one does not
fit, exactly those before it have been written, for whoever else has the table or the memory to see, and no
start function is called.

The segments before one that does not fit are also the only ones that are emptied. A declarative segment behind
it keeps its contents, which a function that is in a table by then can still get at.
-/

namespace WasmEngine

namespace Machine

variable {σ φ : Type} [Activation φ] {s s₁ : Store σ} {m : Module} {entities : List Extern}

/-- **Instantiation applies a prefix of the segments**, once the instance was made. Whatever store is given, the
segments of a valid module are applied to what the store held before and to tables and memories that are empty.
All of them are, and then the start function is called, if there is one. Or one of them does not fit: then
exactly those before it are, and the instantiation traps. -/
theorem instantiate_applies (hv : m.Valid) (himports : s.checkImports m entities = .ok ())
    (hmade : Store.makeInstance m entities s.instances.size s = .ok () s₁) (waiting : List (Waiting σ φ)) :
    ∃ i r, Store.Loaded m entities s s₁ s.instances.size i ∧
      Store.Applied s₁ s.instances.size i m.segments r ∧
      instantiate s m entities waiting = match r with
        | .ok () s₂ => match m.start.bind (i.funcs[·]?) with
          | none => ⟨s₂, .outcome (.ok []), waiting⟩
          | some addr => invoke s₂ addr [] (.start s.instances.size :: waiting)
        | .error e s₂ => ⟨s₂.release s.instances.size, .outcome (.error e), waiting⟩ := by
  obtain ⟨i, hi⟩ := Store.loaded_of_makeInstance hv himports hmade
  refine ⟨i, _, hi, hi.applied, ?_⟩
  rw [instantiate, hi.instantiate_eq himports hmade]
  cases Store.applySegments m s.instances.size s₁ with
  | error e s₂ => rfl
  | ok u s₂ =>
    dsimp only
    cases m.start.bind (i.funcs[·]?) <;> rfl

end Machine

/-! ### A segment that does not fit -/

/-- A module that imports a table of two elements. Of its three element segments, the first fits into the table, the
second does not, and the third is declarative. Its function copies an item of the third one into the table. -/
def Module.overreaching : Module :=
  (Module.ofBytes ⟨#[0, 97, 115, 109, 1, 0, 0, 0, 1, 5, 1, 96, 0, 1, 127, 2, 9, 1, 1, 104, 1, 116, 1, 112, 0, 2, 3, 2,
    1, 0, 9, 18, 3, 0, 65, 0, 11, 1, 0, 0, 65, 228, 0, 11, 1, 0, 3, 0, 1, 0, 10, 16, 1, 14, 0, 65, 1, 65, 0, 65, 1, 252,
    12, 2, 0, 65, 7, 11]⟩ .all {}).toOption.get (by decide +kernel)

/-- A store with such a table. -/
def Store.furnished : Store Unit :=
  { Store.new 0 {} () with tables := #[⟨.funcref, none, #[0, 0]⟩] }

theorem Module.valid_overreaching : overreaching.Valid := Module.valid_get _

theorem Store.checkImports_overreaching :
    furnished.checkImports .overreaching [.table ⟨0, 0⟩] = .ok () := by
  decide +kernel

/-- The instance is made. -/
theorem Store.makeInstance_overreaching :
    ∃ s₁, makeInstance .overreaching [.table ⟨0, 0⟩] furnished.instances.size furnished = .ok () s₁ := by
  have hmade : (match makeInstance .overreaching [.table ⟨0, 0⟩] furnished.instances.size furnished with
    | .ok .. => true
    | .error .. => false) = true := by decide +kernel
  split at hmade
  · next h => exact ⟨_, h⟩
  · nomatch hmade

/-- What comes of it. -/
def Machine.overreaching : Machine Unit := instantiate .furnished .overreaching [.table ⟨0, 0⟩] []

theorem Machine.outcome?_overreaching :
    overreaching.outcome? = some (.error (.ofCode .tableOutOfBounds)) := by
  decide +kernel

/-- The instantiation traps behind the first segment, which is in the table. -/
theorem Machine.instantiate_overreaching : ∃ (s₁ s₂ : Store Unit) (i : ModuleInstance),
    Store.Loaded .overreaching [.table ⟨0, 0⟩] .furnished s₁ 0 i ∧
    Store.Applied s₁ 0 i Module.overreaching.segments (.error (.ofCode .tableOutOfBounds) s₂) ∧
    overreaching.store = s₂.release 0 ∧ overreaching.store.tables.map (·.cells) = #[#[1, 0]] := by
  obtain ⟨s₁, hmade⟩ := Store.makeInstance_overreaching
  obtain ⟨i, r, hloaded, happlied, hr⟩ := Machine.instantiate_applies (φ := Frame)
    Module.valid_overreaching Store.checkImports_overreaching hmade []
  have hstart : Module.overreaching.start = none := by decide +kernel
  have houtcome := Machine.outcome?_overreaching
  rw [overreaching, hr, hstart] at houtcome
  cases r with
  | ok u s₂ => nomatch houtcome
  | error e s₂ =>
    cases houtcome
    exact ⟨s₁, s₂, i, hloaded, happlied, congrArg Machine.store hr, by decide +kernel⟩

/-- **A declarative segment is not always emptied**: one behind a segment that does not fit keeps its contents. -/
theorem Machine.not_all_emptied : ¬∀ (s s₁ : Store Unit) (m : Module) (entities : List Extern), m.Valid →
    s.checkImports m entities = .ok () → Store.makeInstance m entities s.instances.size s = .ok () s₁ →
    ∀ (k : Nat) (segment : ElementSegment), m.elements[k]? = some segment → segment.mode = .declarative →
      ((instantiate s m entities [] : Machine Unit).store.instances[s.instances.size]?.bind
        (·.elements[k]?)) = some #[] := by
  intro hall
  obtain ⟨s₁, hmade⟩ := Store.makeInstance_overreaching
  have hdeclarative : Module.overreaching.elements[2]? = some ⟨.funcref, [.refFunc 0], .declarative⟩ := by
    decide +kernel
  have hkept : overreaching.store.instances[0]?.bind (·.elements[2]?) = some #[1] := by decide +kernel
  have hempty := hall _ s₁ _ _ Module.valid_overreaching Store.checkImports_overreaching hmade 2 _
    hdeclarative rfl
  exact absurd (hkept.symm.trans hempty) (by decide)

end WasmEngine
