import WasmEngine.Proofs.Machine.Soundness

/-!
# Stores stay well typed

Whatever the embedder does, everything in a store has its type, as long as no functions were stranded on the way
(`Machine.Reached.typed`). Instances have at each index what their modules declare there, references lead to what
exists, and numbers of 32 bits leave the rest of their cells zero.

The condition is needed. A stranded function runs in whatever instance was made later at the place that it was meant
for, and puts numbers where that instance has references (`Machine.not_typed_usurped`).
-/

namespace WasmEngine

namespace Machine.Reached

variable {σ : Type} {m : Machine σ} {log : List (Event σ)}

/-- **Stores that are reached are well typed**, in the middle of a run as well as at its end. -/
theorem typed (h : Reached m log) (hstrands : ∀ e ∈ log, ¬e.Strands) : m.store.Typed :=
  (h.sound (h.bound hstrands)).typed.typed

/-- Steps without events leave the log as it is. -/
theorem run_of_uneventful (h : Reached m log) {n : Nat} (hevents : ∀ k < n, (m.run k).event? = none) :
    Reached (m.run n) log := by
  induction n with
  | zero => exact h
  | succ n ih =>
    have hn := ih fun k hk => hevents k (Nat.lt_succ_of_lt hk)
    have hstep := hn.step
    rwa [hevents n (Nat.lt_succ_self n), ← run_succ] at hstep

end Machine.Reached

/-! ### An instance and its start function -/

/-- A module with a table, of which its only function is the first element, a global for that function and another one,
which the function sets to all ones. It is run at the start. -/
def Module.saturating : Module :=
  (Module.ofBytes ⟨#[0, 97, 115, 109, 1, 0, 0, 0, 1, 4, 1, 96, 0, 0, 3, 2, 1, 0, 4, 4, 1, 112, 0, 2, 6, 11, 2, 127, 1,
    65, 5, 11, 112, 0, 210, 0, 11, 8, 1, 0, 9, 7, 1, 0, 65, 0, 11, 1, 0, 10, 9, 1, 7, 0, 66, 127, 167, 36, 0,
    11]⟩ .all {}).toOption.get (by decide +kernel)

/-- The machine that is about to run the start function, in a store that was empty before. -/
def Machine.saturating : Machine Unit :=
  Machine.step ⟨.new 0 {} (), .host none ⟨[], []⟩ (.instantiate .saturating [] fun _ => .return_ []), []⟩

theorem Machine.typed_saturating : (saturating.run 5).store.Typed ∧
    (saturating.run 5).store.globals.map (·.cell) = #[0xFFFFFFFF, 1] := by
  have hreached : Machine.Reached saturating [.instantiation (.new 0 {} ()) .saturating []] :=
    .step (.program (.empty 0 {} ()) ⟨Module.valid_get _, fun _ => trivial⟩)
  have hevents : ∀ k < 5, (saturating.run k).event?.isNone = true := by decide +kernel
  have hrun := hreached.run_of_uneventful fun k hk => Option.isNone_iff_eq_none.mp (hevents k hk)
  refine ⟨hrun.typed (List.forall_mem_singleton.mpr ?_), by decide +kernel⟩
  rintro ⟨-, hbig, -⟩
  exact absurd hbig (by decide +kernel)

/-! ### A stranded function at work -/

/-- A module with a function that sets a global of integers to 1000, and a table of 10000001 elements. -/
def Module.usurping : Module :=
  (Module.ofBytes ⟨#[0, 97, 115, 109, 1, 0, 0, 0, 1, 4, 1, 96, 0, 0, 3, 2, 1, 0, 4, 7, 1, 112, 0, 129, 173, 226, 4, 6,
    6, 1, 126, 1, 66, 0, 11, 10, 9, 1, 7, 0, 66, 232, 7, 36, 0, 11]⟩ .all {}).toOption.get (by decide +kernel)

/-- A module with nothing but a global for a function. -/
def Module.usurped : Module :=
  (Module.ofBytes ⟨#[0, 97, 115, 109, 1, 0, 0, 0, 6, 6, 1, 112, 1, 208, 112, 11, 7, 5, 1, 1, 103, 3, 0]⟩ .all
    {}).toOption.get (by decide +kernel)

/-- The machine that is about to instantiate the first module, which fails, and then the second one, and to call the
function of the first. -/
def Machine.usurping : Machine Unit :=
  ⟨.new 0 {} (), .host none ⟨[], []⟩ (.instantiate .usurping [] fun _ => .instantiate .usurped [] fun _ =>
    .call ⟨0, 0⟩ [] fun _ => .return_ []), []⟩

/-- **Stranded functions break types**: the global refers to a function that there is not. -/
theorem Machine.not_typed_usurped :
    (∃ log, Machine.Reached (usurping.run 10) log) ∧ ¬(usurping.run 10).store.Typed := by
  have hreached : Machine.Reached usurping [] :=
    .program (.empty 0 {} ()) ⟨Module.valid_get _, fun _ => ⟨Module.valid_get _, fun _ _ => trivial⟩⟩
  refine ⟨hreached.run 10, fun ht => ?_⟩
  have hfuncs : (usurping.run 10).store.funcs.size = 1 := by decide +kernel
  have hglobals : (usurping.run 10).store.globals.map (fun g => (g.type.value, g.cell)) =
      #[(.ref .funcref, 1000)] := by decide +kernel
  obtain ⟨g, hg, hcell⟩ := Array.mem_map.mp (hglobals ▸ Array.mem_singleton.mpr rfl)
  have hfits := ht.globals g hg
  obtain ⟨htype, hcell⟩ := Prod.mk.inj hcell
  rw [htype, hcell] at hfits
  rcases hfits with hzero | ⟨addr, hlt, heq⟩
  · nomatch hzero
  · obtain rfl : addr = 0 := Nat.lt_one_iff.mp (hfuncs ▸ hlt)
    nomatch heq

end WasmEngine
