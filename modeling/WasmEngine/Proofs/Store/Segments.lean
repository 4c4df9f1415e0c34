import WasmEngine.Proofs.Store.Additions
import WasmEngine.Proofs.Store.Writes

/-!
# The segments of a new instance

Once an instance is made, its segments are applied one by one: those for tables first, those for memories behind
them. What an active segment writes, and where, is known from the start (`Segment.write?`): it is evaluated with
the functions and globals of the instance, which no segment changes, and a segment is not emptied before its turn.

`Store.written` is the store behind the first segments. It is written down without the loop that leads to it,
and `Store.Loaded.applied` says that the loop leads there: either all segments are applied, or the first one
that does not fit traps, and then exactly those before it are.
-/

namespace WasmEngine

/-! ### Arrays some of whose entries are emptied -/

/-- An array with an empty entry at each of the indices that are picked. -/
def emptied {α : Type} (empty : α) (pick : Nat → Bool) (xs : Array α) : Array α :=
  xs.mapIdx fun k x => if pick k then empty else x

section

variable {α : Type} {empty : α} {pick : Nat → Bool} {xs : Array α}

theorem getElem?_emptied (k : Nat) :
    (emptied empty pick xs)[k]? = xs[k]?.map fun x => if pick k then empty else x :=
  Array.getElem?_mapIdx

theorem emptied_none (h : ∀ k, pick k = false) : emptied empty pick xs = xs := by
  refine Array.ext_getElem? fun k => ?_
  simp [getElem?_emptied, h]

theorem emptied_emptied (pick' : Nat → Bool) :
    emptied empty pick' (emptied empty pick xs) = emptied empty (fun k => pick k || pick' k) xs := by
  refine Array.ext_getElem? fun k => ?_
  simp only [getElem?_emptied, Option.map_map]
  cases pick k <;> simp [Function.comp_def]

theorem setIfInBounds_eq_emptied (index : Nat) :
    xs.setIfInBounds index empty = emptied empty (index = ·) xs := by
  refine Array.ext_getElem? fun k => ?_
  rw [getElem?_emptied, Array.getElem?_setIfInBounds]
  by_cases hk : index = k
  · subst hk
    by_cases hlt : index < xs.size <;> simp [hlt]
  · simp [hk]

end

/-! ### Segments of both kinds -/

/-- A segment of a module, with its index among those of its kind. -/
inductive Segment where
  | element (index : Nat) (segment : ElementSegment)
  | data (index : Nat) (segment : DataSegment)

/-- The segments of a module in the order in which they are applied. -/
def Module.segments (m : Module) : List Segment :=
  m.elements.zipIdx.map (fun (segment, index) => .element index segment) ++
    m.data.zipIdx.map fun (segment, index) => .data index segment

namespace Segment

variable {σ : Type} {s : Store σ} {i : ModuleInstance} {place : Nat}

/-- A segment that is kept for `table.init` or `memory.init`. -/
def passive : Segment → Bool
  | element _ segment => segment.mode = .passive
  | data _ segment => segment.mode = .passive

/-- A segment that is written to a table or a memory. -/
def active : Segment → Bool
  | element _ ⟨_, _, .active ..⟩ | data _ ⟨.active .., _⟩ => true
  | _ => false

/-- What a segment of an instance writes, if it is active. -/
def write? (s : Store σ) (i : ModuleInstance) : Segment → Option Write
  -- an offset is a number of 32 bits, the low half of its cell
  | element index ⟨_, _, .active table offset⟩ => do
    let start ← s.evalConst i.funcs i.globals offset
    return .table (← i.tables[table]?) (start.setWidth 32).toNat (← i.elements[index]?)
  | data _ ⟨.active memory offset, bytes⟩ => do
    let start ← s.evalConst i.funcs i.globals offset
    return .memory (← i.memories[memory]?) (start.setWidth 32).toNat bytes
  | _ => none

/-- Applying the segment empties the element segment at an index. -/
def emptiesElement (k : Nat) : Segment → Bool
  | element index segment => index = k ∧ segment.mode ≠ .passive
  | data .. => false

/-- Applying the segment empties the data segment at an index. -/
def emptiesData (k : Nat) : Segment → Bool
  | element .. => false
  | data index segment => index = k ∧ segment.mode ≠ .passive

/-- Apply a segment of the instance at a place. -/
def apply (place : Nat) : Segment → StoreM σ Unit
  | element index segment => Store.applyElement place segment index
  | data index segment => Store.applyData place segment index

end Segment

/-- **An instance that has lost the contents of segments**: of all but the passive ones among those that were
applied. -/
def ModuleInstance.spent (i : ModuleInstance) (done : List Segment) : ModuleInstance :=
  { i with
    elements := emptied #[] (fun k => done.any (·.emptiesElement k)) i.elements
    data := emptied .empty (fun k => done.any (·.emptiesData k)) i.data }

namespace Store

variable {σ : Type}

/-- The store with several writes performed, one over the other. -/
def overwritten (s : Store σ) (writes : List Write) : Store σ :=
  writes.foldl (fun s w => w.perform s) s

/-- **The store in which segments of an instance were applied**: they are written one over the other, and emptied. -/
def written (s : Store σ) (place : Nat) (i : ModuleInstance) (done : List Segment) : Store σ :=
  (s.overwritten (done.filterMap (·.write? s i))).modifyInstance place (·.spent done)

end Store

/-! ### What segments leave of an instance -/

namespace ModuleInstance

variable (i : ModuleInstance) (done : List Segment)

@[simp] theorem spent_nil : i.spent [] = i := by
  simp [spent, emptied_none]

theorem spent_spent (rest : List Segment) : (i.spent done).spent rest = i.spent (done ++ rest) := by
  simp [spent, emptied_emptied]

/-- A passive segment keeps its contents. -/
theorem spent_passive {seg : Segment} (h : seg.passive = true) : i.spent [seg] = i := by
  cases seg <;> have h := of_decide_eq_true h <;>
    simp [spent, emptied_none, Segment.emptiesElement, Segment.emptiesData, h]

theorem spent_element {index : Nat} {segment : ElementSegment} (h : segment.mode ≠ .passive) :
    i.spent [.element index segment] = { i with elements := i.elements.setIfInBounds index #[] } := by
  simp [spent, emptied_none, setIfInBounds_eq_emptied, Segment.emptiesElement, Segment.emptiesData, h]

theorem spent_data {index : Nat} {segment : DataSegment} (h : segment.mode ≠ .passive) :
    i.spent [.data index segment] = { i with data := i.data.setIfInBounds index .empty } := by
  simp [spent, emptied_none, setIfInBounds_eq_emptied, Segment.emptiesElement, Segment.emptiesData, h]

end ModuleInstance

/-! ### One segment -/

theorem Store.constCell_of_eq {σ : Type} {s : Store σ} {funcs globals : Array Nat} {e : ConstExpr} {c : Cell}
    (h : s.evalConst funcs globals e = some c) :
    (constCell funcs globals e : StoreM σ Cell) s = .ok c s := by
  change outside (s.evalConst funcs globals e) s = _
  exact outside_of_eq h

namespace Segment

variable {σ : Type} {s : Store σ} {i : ModuleInstance} {place : Nat}

theorem write?_eq_none {seg : Segment} (h : seg.active = false) : seg.write? s i = none := by
  unfold active at h
  unfold write?
  split at h
  · nomatch h
  · nomatch h
  · rfl

theorem modifyInstance_passive {seg : Segment} (h : seg.passive = true) :
    s.modifyInstance place (·.spent [seg]) = s := by
  simp [Store.modifyInstance, ModuleInstance.spent_passive _ h, modify_eq_self]

/-- A segment that is not active is emptied, unless it is passive. -/
theorem apply_of_not_active : ∀ {seg : Segment}, seg.active = false →
    seg.apply place s = .ok () (s.modifyInstance place (·.spent [seg]))
  | .element index ⟨type, items, .passive⟩, _ => by
    rw [modifyInstance_passive rfl]
    rfl
  | .element index ⟨type, items, .declarative⟩, _ => by
    simp only [ModuleInstance.spent_element, ne_eq, reduceCtorEq, not_false_eq_true]
    rfl
  | .data index ⟨.passive, bytes⟩, _ => by
    rw [modifyInstance_passive rfl]
    rfl

/-- **An active segment is written, and then emptied.** -/
theorem apply_of_write? {w : Write} (hi : s.instances[place]? = some i) : ∀ {seg : Segment},
    seg.write? s i = some w →
    seg.apply place s = (w.run >>= fun _ => modify (Store.modifyInstance place (·.spent [seg]))) s
  | .element index ⟨type, items, .active table offset⟩, h => by
    simp only [write?, Option.bind_eq_bind, Option.bind_eq_some_iff, Option.pure_def, Option.some.injEq] at h
    obtain ⟨start, hstart, addr, haddr, cells, hcells, rfl⟩ := h
    simp only [ModuleInstance.spent_element, ne_eq, reduceCtorEq, not_false_eq_true]
    rw [apply, Store.applyElement]
    dsimp only
    rw [estate_bind_of_ok (Store.instanceAt_of_eq hi), estate_bind_of_ok (Store.outside_of_eq haddr),
      estate_bind_of_ok (Store.outside_of_eq hcells), estate_bind_of_ok (Store.constCell_of_eq hstart)]
    rfl
  | .data index ⟨.active memory offset, bytes⟩, h => by
    simp only [write?, Option.bind_eq_bind, Option.bind_eq_some_iff, Option.pure_def, Option.some.injEq] at h
    obtain ⟨start, hstart, addr, haddr, rfl⟩ := h
    simp only [ModuleInstance.spent_data, ne_eq, reduceCtorEq, not_false_eq_true]
    rw [apply, Store.applyData]
    dsimp only
    rw [estate_bind_of_ok (Store.instanceAt_of_eq hi), estate_bind_of_ok (Store.outside_of_eq haddr),
      estate_bind_of_ok (Store.constCell_of_eq hstart)]
    rfl

/-- Applying the first segment does not empty the second one. -/
def Spares (seg seg' : Segment) : Prop := ∀ k segment, seg' = .element k segment → seg.emptiesElement k = false

end Segment

theorem Module.segments_spare (m : Module) : m.segments.Pairwise Segment.Spares := by
  have hindex {α : Type} (l : List α) : l.zipIdx.Pairwise fun a b => a.2 ≠ b.2 :=
    List.pairwise_map.mp (by rw [List.zipIdx_map_snd]; exact List.nodup_range')
  refine List.pairwise_append.mpr ⟨List.pairwise_map.mpr ((hindex _).imp ?_),
    List.pairwise_map.mpr ((hindex _).imp ?_), ?_⟩
  · rintro ⟨seg, index⟩ ⟨seg', index'⟩ hne k segment ⟨⟩
    simp [Segment.emptiesElement, hne]
  -- the second one is a data segment
  · exact fun _ _ _ h => nomatch h
  · rintro _ - b hb k segment rfl
    simp at hb

namespace Store

variable {s : Store σ} {i : ModuleInstance} {place : Nat} {done : List Segment}

/-! ### The store behind the first segments -/

theorem overwritten_append (writes writes' : List Write) :
    s.overwritten (writes ++ writes') = (s.overwritten writes).overwritten writes' :=
  List.foldl_append

theorem globals_overwritten (writes : List Write) : (s.overwritten writes).globals = s.globals := by
  induction writes generalizing s with
  | nil => rfl
  | cons w rest ih => exact ih.trans w.globals_perform

theorem instances_overwritten (writes : List Write) :
    (s.overwritten writes).instances = s.instances := by
  induction writes generalizing s with
  | nil => rfl
  | cons w rest ih => exact ih.trans w.instances_perform

theorem room?_overwritten (writes : List Write) (w : Write) : w.room? (s.overwritten writes) = w.room? s := by
  induction writes generalizing s with
  | nil => rfl
  | cons w' rest ih => exact ih.trans (Write.room?_perform w)

theorem instance_written (hi : s.instances[place]? = some i) :
    (s.written place i done).instances[place]? = some (i.spent done) := by
  change (Array.modify _ place _)[place]? = _
  rw [Array.getElem?_modify, if_pos rfl, instances_overwritten, hi]
  rfl

/-- Initializers only read globals. -/
theorem evalConst_congr {s' : Store σ} (h : s'.globals = s.globals) (funcs globals : Array Nat) (e : ConstExpr) :
    s'.evalConst funcs globals e = s.evalConst funcs globals e := by
  cases e <;> simp only [evalConst, h]

/-- What a segment writes does not depend on the segments that were applied before. -/
theorem write?_written {seg : Segment} (h : ∀ seg' ∈ done, seg'.Spares seg) :
    seg.write? (s.written place i done) (i.spent done) = seg.write? s i := by
  have hglobals : (s.written place i done).globals = s.globals := globals_overwritten _
  have hconst := evalConst_congr hglobals i.funcs i.globals
  have helements {k : Nat} {segment : ElementSegment} (hk : seg = .element k segment) :
      (i.spent done).elements[k]? = i.elements[k]? := by
    have hnone : done.any (·.emptiesElement k) = false := by
      simpa using fun seg' hseg' => h seg' hseg' k segment hk
    simp [ModuleInstance.spent, getElem?_emptied, hnone]
  unfold Segment.write?
  split
  · rw [← hconst, ← helements rfl]
    rfl
  · rw [← hconst]
    rfl
  · rfl

theorem room?_written (w : Write) : w.room? (s.written place i done) = w.room? s :=
  room?_overwritten _ w

theorem modifyInstance_modifyInstance (f g : ModuleInstance → ModuleInstance) :
    (s.modifyInstance place f).modifyInstance place g = s.modifyInstance place fun i => g (f i) := by
  have hmodify : (s.instances.modify place f).modify place g = s.instances.modify place fun i => g (f i) := by
    refine Array.ext_getElem? fun k => ?_
    simp only [Array.getElem?_modify]
    split <;> simp [Function.comp_def]
  exact congrArg (fun instances => { s with instances }) hmodify

theorem overwritten_modifyInstance (change : ModuleInstance → ModuleInstance) (writes : List Write) :
    (s.modifyInstance place change).overwritten writes =
      (s.overwritten writes).modifyInstance place change := by
  induction writes generalizing s with
  | nil => rfl
  | cons w rest ih =>
    rw [overwritten, List.foldl_cons, Write.modifyInstance_perform]
    exact ih

/-- The writes with one segment more. -/
theorem writes_snoc (seg : Segment) : (done ++ [seg]).filterMap (·.write? s i) =
    done.filterMap (·.write? s i) ++ (seg.write? s i).toList := by
  rw [List.filterMap_append, List.filterMap_cons, List.filterMap_nil]
  cases seg.write? s i <;> rfl

/-- The store with one segment more. -/
theorem written_snoc (seg : Segment) : s.written place i (done ++ [seg]) =
    ((s.written place i done).overwritten (seg.write? s i).toList).modifyInstance place
      (·.spent [seg]) := by
  rw [written, writes_snoc, overwritten_append, written, overwritten_modifyInstance,
    modifyInstance_modifyInstance]
  simp only [ModuleInstance.spent_spent]

/-- **What applying one more segment does**, if it is not active. -/
theorem apply_written_of_not_active {seg : Segment} (h : seg.active = false) :
    seg.apply place (s.written place i done) = .ok () (s.written place i (done ++ [seg])) := by
  rw [Segment.apply_of_not_active h, written_snoc, Segment.write?_eq_none h]
  rfl

/-- **What applying one more segment does**, if it is active. -/
theorem apply_written_of_write? (hi : s.instances[place]? = some i) {seg : Segment}
    (hspares : ∀ seg' ∈ done, seg'.Spares seg) {w : Write} {n : Nat} (hw : seg.write? s i = some w)
    (hn : w.room? s = some n) :
    seg.apply place (s.written place i done) =
      if w.stop ≤ n then .ok () (s.written place i (done ++ [seg]))
      else .error (.ofCode w.trap) (s.written place i done) := by
  have hroom : w.room? (s.written place i done) = some n := (room?_written w).trans hn
  have hrun := Write.run_eq hroom
  rw [Segment.apply_of_write? (instance_written hi) ((write?_written hspares).trans hw)]
  split
  · next hfits =>
    rw [if_pos hfits] at hrun
    rw [estate_bind_of_ok hrun, written_snoc, hw]
    rfl
  · next hnot =>
    rw [if_neg hnot] at hrun
    rw [estate_bind_of_error hrun]

/-! ### All segments -/

theorem applySegments_eq (m : Module) (place : Nat) :
    (applySegments m place : StoreM σ Unit) = m.segments.forM (Segment.apply place) := by
  simp only [applySegments, Module.segments, List.forM_eq_forM, List.forM_append, List.forM_map]
  rfl

/-- **What comes of applying segments.** -/
inductive Applied (s : Store σ) (place : Nat) (i : ModuleInstance) (segments : List Segment) :
    EStateM.Result Error (Store σ) Unit → Prop
  /-- All of them fit and were applied. -/
  | all : (∀ w ∈ segments.filterMap (·.write? s i), w.Fits s) →
    Applied s place i segments (.ok () (s.written place i segments))
  /-- One of them does not fit. Exactly those before it were applied. -/
  | trapped {before after : List Segment} {seg : Segment} {w : Write} :
    segments = before ++ seg :: after → (∀ w ∈ before.filterMap (·.write? s i), w.Fits s) →
    seg.write? s i = some w → ¬w.Fits s →
    Applied s place i segments (.error (.ofCode w.trap) (s.written place i before))

/-- **Segments are applied one by one until one does not fit.** The induction is on the segments that are left, with
those that were applied in the store. -/
theorem applied_forM (hi : s.instances[place]? = some i) (rest : List Segment) :
    ∀ done : List Segment, (done ++ rest).Pairwise Segment.Spares →
    (∀ seg ∈ rest, seg.active = true → ∃ w n, seg.write? s i = some w ∧ w.room? s = some n) →
    (∀ w ∈ done.filterMap (·.write? s i), w.Fits s) →
    Applied s place i (done ++ rest) ((rest.forM (Segment.apply place)) (s.written place i done)) := by
  induction rest with
  | nil =>
    intro done _ _ hdone
    rw [List.append_nil]
    exact .all hdone
  | cons seg rest ih =>
    intro done hspares hknown hdone
    -- what is left to do once `seg` was applied
    have hrest (hseg : ∀ w, seg.write? s i = some w → w.Fits s) :
        Applied s place i (done ++ seg :: rest)
          ((rest.forM (Segment.apply place)) (s.written place i (done ++ [seg]))) := by
      rw [List.append_cons]
      refine ih _ (by simpa using hspares) (fun seg' h => hknown seg' (List.mem_cons_of_mem _ h)) ?_
      rw [writes_snoc]
      exact List.forall_mem_append.mpr ⟨hdone, fun w hw => hseg w (Option.mem_toList.mp hw)⟩
    change Applied _ _ _ _ ((seg.apply place >>= fun _ => rest.forM (Segment.apply place)) _)
    -- only an active segment can fail, and it fails if it does not fit
    cases hactive : seg.active with
    | false =>
      rw [estate_bind_of_ok (apply_written_of_not_active hactive)]
      exact hrest (by simp [Segment.write?_eq_none hactive])
    | true =>
      obtain ⟨w, n, hw, hn⟩ := hknown seg List.mem_cons_self hactive
      have hbefore : ∀ seg' ∈ done, seg'.Spares seg := fun seg' h =>
        (List.pairwise_append.mp hspares).2.2 seg' h seg List.mem_cons_self
      have happly := apply_written_of_write? hi hbefore hw hn
      by_cases hfits : w.stop ≤ n
      · rw [if_pos hfits] at happly
        rw [estate_bind_of_ok happly]
        refine hrest fun w' hw' => ?_
        obtain rfl := Option.some.inj (hw.symm.trans hw')
        exact ⟨n, hn, hfits⟩
      · rw [if_neg hfits] at happly
        rw [estate_bind_of_error happly]
        refine .trapped rfl hdone hw fun ⟨n', hn', hle⟩ => hfits ?_
        obtain rfl := Option.some.inj (hn.symm.trans hn')
        exact hle

/-! ### The instance before its segments are applied -/

/-- **An instance as it is made**: nothing has been written yet, imported entities come first in its index
spaces, its segments have their contents, and each that is active has a place in a table or a memory. -/
structure Loaded (m : Module) (entities : List Extern) (s s₁ : Store σ) (place : Nat) (i : ModuleInstance) :
    Prop where
  adds : Adds s s₁
  found : s₁.instances[place]? = some i
  tables : Extern.tableAddrs entities <+: i.tables.toList
  memories : Extern.memoryAddrs entities <+: i.memories.toList
  globals : Extern.globalAddrs entities <+: i.globals.toList
  elements : List.Forall₂ (s₁.HoldsItems i.funcs i.globals) m.elements i.elements.toList
  data : i.data = (m.data.map (·.bytes)).toArray
  writes : ∀ seg ∈ m.segments, seg.active = true → ∃ w n, seg.write? s₁ i = some w ∧ w.room? s₁ = some n
  start : ∀ f, m.start = some f → ∃ addr, i.funcs[f]? = some addr

theorem Made.write?_of_active {m : Module} {features : Features} {entities : List Extern} {s₁ : Store σ}
    (hm : m.Checked features) (h : Made m entities place s s₁ i) {seg : Segment} (hseg : seg ∈ m.segments)
    (hactive : seg.active = true) :
    ∃ w n, seg.write? (s₁.addInstance i) i = some w ∧ w.room? (s₁.addInstance i) = some n := by
  have hreach := globals_reach h.globalTypes (List.prefix_append _ _) (List.prefix_refl _)
  have hstart {offset : ConstExpr} (ho : (m.context features).constType offset = .ok .i32) :
      ∃ c, (s₁.addInstance i).evalConst i.funcs i.globals offset = some c := by
    obtain ⟨c, hc, -⟩ := evalConst_spec h.signatures hreach ho
    exact ⟨c, (evalConst_congr rfl _ _ _).trans hc⟩
  rcases List.mem_append.mp hseg with hseg | hseg
  · obtain ⟨⟨segment, index⟩, hmem, rfl⟩ := List.mem_map.mp hseg
    have hsegment := List.mem_zipIdx_iff_getElem?.mp hmem
    obtain ⟨type, items, mode⟩ := segment
    cases mode with
    | passive | declarative => nomatch hactive
    | active table offset =>
      obtain ⟨⟨t, ht, -⟩, ho⟩ := hm.elements _ (List.mem_of_getElem? hsegment) table offset rfl
      obtain ⟨c, hc⟩ := hstart ho
      obtain ⟨addr, haddr, u, hu, -⟩ := forall₂_getElem? h.tableTypes ht
      obtain ⟨cells, hcells, -⟩ := forall₂_getElem? h.items hsegment
      rw [Array.getElem?_toList] at haddr hcells
      refine ⟨.table addr (c.setWidth 32).toNat cells, u.cells.size, ?_, ?_⟩
      · simp [Segment.write?, hc, haddr, hcells]
      · exact congrArg (Option.map _) hu
  · obtain ⟨⟨segment, index⟩, hmem, rfl⟩ := List.mem_map.mp hseg
    have hsegment := List.mem_zipIdx_iff_getElem?.mp hmem
    obtain ⟨mode, bytes⟩ := segment
    cases mode with
    | passive => nomatch hactive
    | active memory offset =>
      obtain ⟨⟨l, hl⟩, ho⟩ := hm.data _ (List.mem_of_getElem? hsegment) memory offset rfl
      obtain ⟨c, hc⟩ := hstart ho
      obtain ⟨addr, haddr, e, he, -⟩ := forall₂_getElem? h.memoryTypes hl
      rw [Array.getElem?_toList] at haddr
      refine ⟨.memory addr (c.setWidth 32).toNat bytes, e.memory.bytes.size, ?_, ?_⟩
      · simp [Segment.write?, hc, haddr]
      · exact congrArg (Option.map _) he

variable {m : Module} {entities : List Extern} {s₁ : Store σ}

/-- **What is there once an instance was made.** -/
theorem loaded_of_makeInstance (hv : m.Valid) (himports : s.checkImports m entities = .ok ())
    (h : makeInstance m entities s.instances.size s = .ok () s₁) :
    ∃ i, Loaded m entities s s₁ s.instances.size i := by
  obtain ⟨features, hm⟩ := hv.checked
  have hadds : Adds s s₁ := by
    have := adds_makeInstance m entities s.instances.size s
    rwa [h] at this
  obtain ⟨s₀, i, hmade, -, -, rfl⟩ := (makeInstance_spec _ hv hm himports).ok_of h
  refine ⟨i, {
    adds := hadds
    found := hmade.instance
    tables := hmade.tables_of
    memories := hmade.memories_of
    globals := hmade.globals_of
    elements := hmade.items.imp fun _ _ hitems => hitems.imp fun _ _ hc => hc
    data := hmade.bytes
    writes := fun seg => hmade.write?_of_active hm
    start := fun f hf => ?_ }⟩
  obtain ⟨t, ht, -⟩ := Context.func_eq_ok.mp (hm.start f hf)
  obtain ⟨addr, haddr, -⟩ := forall₂_getElem? hmade.signatures ht
  exact ⟨addr, by rwa [Array.getElem?_toList] at haddr⟩

/-- **All segments are applied, or exactly those before one that does not fit.** -/
theorem Loaded.applied (h : Loaded m entities s s₁ place i) :
    Applied s₁ place i m.segments (applySegments m place s₁) := by
  have hempty : s₁.written place i [] = s₁ := by
    simp [written, overwritten, modifyInstance, modify_eq_self]
  have happlied := applied_forM h.found m.segments [] m.segments_spare h.writes (by simp)
  rwa [hempty, ← applySegments_eq] at happlied

/-- The start function is only looked for when all segments are applied. -/
theorem Loaded.instantiate_eq (himports : s.checkImports m entities = .ok ())
    (hmade : makeInstance m entities s.instances.size s = .ok () s₁)
    (h : Loaded m entities s s₁ s.instances.size i) :
    instantiate m entities s = match applySegments m s.instances.size s₁ with
      | .ok () s₂ => .ok (m.start.bind (i.funcs[·]?)) s₂
      | .error e s₂ => .error e (s₂.release s.instances.size) := by
  have happlied := h.applied
  rw [instantiate, himports]
  dsimp only
  rw [estate_bind_of_ok hmade]
  cases hr : applySegments m s.instances.size s₁ with
  | error e s₂ => rw [estate_bind_of_error hr]
  | ok u s₂ =>
    rw [estate_bind_of_ok hr]
    rw [hr] at happlied
    cases happlied
    cases hstart : m.start with
    | none => rfl
    | some f =>
      obtain ⟨addr, haddr⟩ := h.start f hstart
      have haddr' : (i.spent m.segments).funcs[f]? = some addr := haddr
      dsimp only
      rw [estate_bind_of_ok (instanceAt_of_eq (instance_written h.found)),
        estate_bind_of_ok (outside_of_eq haddr'), Option.bind_some, haddr]
      rfl

end Store

end WasmEngine
