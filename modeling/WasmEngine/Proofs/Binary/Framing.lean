import WasmEngine.Proofs.Binary.Format

/-!
# Reading the sections of a module

The reader of modules keeps what was read so far: the place in the order of sections that has been reached, and a
module to which each section adds. Here it is shown to accept exactly the modules of the format
(`RawModule.accepted_iff_format`). One section is taken apart into its identifier, size and payload
(`Decoder.oneSection_eq_ok`), and the loop over all sections follows by induction.

That the bodies are as many as the functions is found out twice. Where the code is read it is compared with the functions
so far, which are all there will be, since no later section declares any (`RawModule.extend_behind`).
-/

namespace WasmEngine

variable {features : Features} {limits : DecodeLimits} {m m' : RawModule} {c c' w : Cursor}

namespace Cursor

theorem advance_advance (c : Cursor) (i k : Nat) : (c.advance i).advance k = c.advance (i + k) := by
  simp only [advance, Nat.add_assoc]

theorem remaining_advance (c : Cursor) (n : Nat) : (c.advance n).remaining = c.remaining - n := by
  simp only [remaining, pos_advance, stop_advance]
  omega

theorem isEmpty_advance_remaining (c : Cursor) : (c.advance c.remaining).isEmpty = true :=
  decide_eq_true (by change c.stop ≤ c.pos + (c.stop - c.pos); omega)

theorem isEmpty_iff {c : Cursor} : c.isEmpty = true ↔ c.remaining = 0 := by
  simp only [isEmpty, remaining, decide_eq_true_eq]
  omega

end Cursor

theorem Cursor.Onward.eq_of_isEmpty (h : w.Onward c) (hw : w.pos ≤ w.stop) (he : c.isEmpty = true) :
    c = ⟨w.data, w.stop, w.stop⟩ := by
  have hpos : c.stop ≤ c.pos := of_decide_eq_true he
  have hfits := h.fits hw
  rw [h.stop] at hpos
  obtain ⟨data, pos, stop⟩ := c
  obtain rfl : data = w.data := h.data
  obtain rfl : stop = w.stop := h.stop
  obtain rfl : pos = w.stop := Nat.le_antisymm hfits hpos
  rfl

namespace Section

@[simp] theorem length_bytes (s : Section) : s.bytes.length = 1 + s.size.length + s.payload.length := by
  simp only [bytes, List.cons_append, List.length_cons, List.length_append]
  omega

/-- The section may stand behind sections up to a place in the order, and leads to the next one. -/
def Follows (s : Section) (rank next : Nat) : Prop :=
  match s.contents.rank? with
  | none => rank = next
  | some place => rank < place ∧ place = next

/-- Sections behind a place in the order are in order. -/
def InOrder (rank : Nat) (sections : List Section) : Prop :=
  (rank :: sections.filterMap (·.contents.rank?)).Pairwise (· < ·)

theorem inOrder_cons {s : Section} {rest : List Section} {rank : Nat} :
    InOrder rank (s :: rest) ↔ ∃ next, s.Follows rank next ∧ InOrder next rest := by
  unfold InOrder Follows
  cases hr : s.contents.rank? with
  | none => simp [hr]
  | some place =>
    simp only [List.filterMap_cons, hr]
    rw [List.pairwise_cons, List.forall_mem_cons]
    constructor
    · rintro ⟨⟨hrank, -⟩, hrest⟩
      exact ⟨place, ⟨hrank, rfl⟩, hrest⟩
    · rintro ⟨_, ⟨hrank, rfl⟩, hrest⟩
      exact ⟨⟨hrank, fun other hother => hrank.trans (List.rel_of_pairwise_cons hrest hother)⟩, hrest⟩

/-- Each code section matches the functions that were declared before it. -/
def Matching : RawModule → List Section → Prop
  | _, [] => True
  | m, s :: rest => s.contents.Matches m ∧ Matching (s.contents.addTo m) rest

theorem bytes_ne_nil (s : Section) : s.bytes ≠ [] := List.cons_ne_nil _ _

end Section

/-- Only custom sections have no place in the order. -/
theorem Contents.id_of_rank {contents : Contents} (h : contents.rank? = none) : contents.id = 0 := by
  cases contents with
  | custom => rfl
  | _ => nomatch h

namespace Decoder

/-- The end of a custom section, once its name and its data have been read. -/
theorem keepNames_eq_ok (text : String) (payload : Cursor) (m : RawModule) (c : Cursor) :
    (if text = "name" then
      match nameSection.run payload with
      | .ok names _ => return { m with names }
      | .error _ _ => return m
      else return m : Decoder RawModule) c = .ok { m with names := (namesIn text payload).getD m.names } c := by
  unfold namesIn
  by_cases htext : text = "name"
  · rw [if_pos htext, if_pos htext]
    change (match nameSection payload with
      | .ok names _ => pure { m with names }
      | .error _ _ => pure m : Decoder RawModule) c = _
    cases nameSection payload <;> rfl
  · rw [if_neg htext, if_neg htext]
    rfl

theorem customSection_eq_ok : customSection m w = .ok m' c ↔ ∃ s names,
    (Contents.custom s names).StandsIn features limits w c ∧ (Contents.custom s names).addTo m = m' := by
  constructor
  · intro h
    obtain ⟨text, c₁, htext, h⟩ := estate_bind_eq_ok.mp h
    obtain ⟨_, _, hget, h⟩ := estate_bind_eq_ok.mp h
    cases hget
    obtain ⟨data, c₂, hdata, h⟩ := estate_bind_eq_ok.mp h
    obtain ⟨-, rfl, rfl⟩ := bytes_eq_ok.mp hdata
    cases (keepNames_eq_ok text c₁ _ _).symm.trans h
    exact ⟨⟨text, c₁.pos, _⟩, namesIn text c₁, ⟨c₁, htext, rfl, rfl, rfl, rfl⟩, rfl⟩
  · rintro ⟨⟨text, _, _⟩, _, ⟨c₁, htext, rfl, rfl, rfl, rfl⟩, rfl⟩
    refine estate_bind_eq_ok.mpr ⟨text, c₁, htext, estate_bind_eq_ok.mpr ⟨c₁, c₁, rfl, ?_⟩⟩
    refine estate_bind_eq_ok.mpr ⟨_, _, bytes_eq_ok.mpr ⟨Nat.le_refl _, rfl, rfl⟩, ?_⟩
    exact keepNames_eq_ok text c₁ _ _

theorem wholeSection_eq_ok {id : UInt8} : wholeSection features limits id m w = .ok m' c ↔
    knownSection features limits id m w = .ok m' c ∧ c.isEmpty = true := by
  constructor
  · intro h
    obtain ⟨m₁, c₁, hknown, h⟩ := estate_bind_eq_ok.mp h
    obtain ⟨⟨⟩, c₂, hfinish, h⟩ := estate_bind_eq_ok.mp h
    obtain ⟨he, rfl⟩ := finish_eq_ok.mp hfinish
    obtain ⟨rfl, rfl⟩ := estate_pure_eq_ok.mp h
    exact ⟨hknown, he⟩
  · rintro ⟨h, he⟩
    exact estate_bind_eq_ok.mpr ⟨m', c, h, estate_bind_eq_ok.mpr ⟨(), c, finish_eq_ok.mpr ⟨he, rfl⟩, rfl⟩⟩

/-- **The payload of a section**, read up to the end of its window. -/
theorem payload_eq_ok {rank next : Nat} {id : UInt8} (start : Nat) {size : Nat} :
    (if id = 0 then do
        let (m, _) ← within size (customSection m)
        return (rank, m)
      else match sectionRank? id with
        | none => fail (.sectionId id) start
        | some next => do
          if next ≤ rank then fail (.sectionOrder id) start
          let (m, _) ← within size (wholeSection features limits id m)
          return (next, m) : Decoder (Nat × RawModule)) c = .ok (next, m') c' ↔
      size ≤ c.remaining ∧ c.advance size = c' ∧ ∃ contents : Contents, contents.id = id ∧
        contents.StandsIn features limits (c.window size) ⟨c.data, c.pos + size, c.pos + size⟩ ∧
        (match contents.rank? with
          | none => rank = next
          | some place => rank < place ∧ place = next) ∧ contents.Matches m ∧ contents.addTo m = m' := by
  have hwindow : (c.window size).pos ≤ (c.window size).stop := Nat.le_add_right _ _
  by_cases hid : id = 0
  · subst hid
    rw [if_pos rfl]
    constructor
    · intro h
      obtain ⟨⟨m₁, w⟩, c₁, hw, h⟩ := estate_bind_eq_ok.mp h
      obtain ⟨hsize, hm, rfl⟩ := within_eq_ok.mp hw
      cases h
      obtain ⟨s, names, hstands, rfl⟩ := customSection_eq_ok.mp hm
      have hend : w.isEmpty = true := by
        obtain ⟨c₁, -, -, -, -, rfl⟩ := hstands
        exact c₁.isEmpty_advance_remaining
      refine ⟨hsize, rfl, .custom s names, rfl, ?_, rfl, nofun, rfl⟩
      rwa [hstands.onward.eq_of_isEmpty hwindow hend] at hstands
    · rintro ⟨hsize, rfl, contents, hid, hstands, hrank, -, rfl⟩
      cases contents with
      | custom s names =>
        obtain rfl : rank = next := hrank
        have hread := (customSection_eq_ok (m := m)).mpr ⟨s, names, hstands, rfl⟩
        exact estate_bind_eq_ok.mpr ⟨_, _, within_eq_ok.mpr ⟨hsize, hread, rfl⟩, rfl⟩
      | _ => nomatch hid
  · rw [if_neg hid]
    cases hplace : sectionRank? id with
    | none =>
      refine ⟨fun h => (nomatch h), ?_⟩
      rintro ⟨-, -, contents, rfl, -⟩
      exact absurd (Contents.id_of_rank hplace) hid
    | some place =>
      dsimp only
      rw [check_eq_ok]
      constructor
      · rintro ⟨hrank, h⟩
        obtain ⟨⟨m₁, w⟩, c₁, hw, h⟩ := estate_bind_eq_ok.mp h
        obtain ⟨hsize, hm, rfl⟩ := within_eq_ok.mp hw
        cases h
        obtain ⟨hknown, hend⟩ := wholeSection_eq_ok.mp hm
        obtain ⟨contents, rfl, hstands, hmatches, rfl⟩ := (knownSection_eq_ok hplace).mp hknown
        refine ⟨hsize, rfl, contents, rfl, ?_, ?_, hmatches, rfl⟩
        · rwa [hstands.onward.eq_of_isEmpty hwindow hend] at hstands
        · rw [Contents.rank?, hplace]
          exact ⟨Nat.lt_of_not_le hrank, rfl⟩
      · rintro ⟨hsize, rfl, contents, rfl, hstands, hrank, hmatches, rfl⟩
        rw [Contents.rank?, hplace] at hrank
        obtain ⟨hrank, rfl⟩ := hrank
        have hknown := (knownSection_eq_ok hplace).mpr ⟨contents, rfl, hstands, hmatches, rfl⟩
        have hread := wholeSection_eq_ok.mpr ⟨hknown, decide_eq_true (Nat.le_refl _)⟩
        exact ⟨Nat.not_le.mpr hrank, estate_bind_eq_ok.mpr ⟨_, _, within_eq_ok.mpr ⟨hsize, hread, rfl⟩, rfl⟩⟩

/-- **One section** in front of a cursor, behind others. -/
theorem oneSection_eq_ok (hc : c.Sound) {rank next : Nat} :
    oneSection features limits rank m c = .ok (next, m') c' ↔ ∃ (s : Section) (rest : List UInt8), c.rest = s.bytes ++ rest ∧
      s.StandsAt features limits c.data c.pos ∧ s.Follows rank next ∧ s.contents.Matches m ∧
        s.contents.addTo m = m' ∧ c.advance s.bytes.length = c' := by
  constructor
  · intro h
    obtain ⟨start, _, hstart, h⟩ := estate_bind_eq_ok.mp h
    obtain ⟨-, rfl⟩ := position_eq_ok.mp hstart
    obtain ⟨id, _, hid, h⟩ := estate_bind_eq_ok.mp h
    obtain ⟨hhead, rfl⟩ := byte_eq_ok_iff.mp hid
    obtain ⟨sizeStart, _, hstart, h⟩ := estate_bind_eq_ok.mp h
    obtain ⟨-, rfl⟩ := position_eq_ok.mp hstart
    obtain ⟨size, _, hsize, h⟩ := estate_bind_eq_ok.mp h
    obtain ⟨_, ⟨bs, hbs, ⟨tail, htail⟩, rfl⟩, rfl⟩ := u32_eq_ok.mp hsize
    obtain ⟨hlimit, h⟩ := check_eq_ok.mp h
    obtain ⟨_, _, hrest, h⟩ := estate_bind_eq_ok.mp h
    obtain ⟨rfl, rfl⟩ := remaining_eq_ok.mp hrest
    obtain ⟨-, h⟩ := check_eq_ok.mp h
    obtain ⟨hfits, rfl, contents, rfl, hstands, hfollows, hmatches, rfl⟩ := (payload_eq_ok start).mp h
    have hrest : c.rest = contents.id :: (bs ++ tail) := by
      rw [htail, Cursor.rest_advance, List.drop_one]
      exact (List.cons_head?_tail hhead).symm
    have hlength := hc.length_rest
    rw [hrest, List.length_cons, List.length_append] at hlength
    have hle : size ≤ tail.length := by
      simp only [Cursor.remaining, Cursor.pos_advance, Cursor.stop_advance] at hfits hlength
      omega
    have hpayload : (tail.take size).length = size := List.length_take_of_le hle
    have hbytes (s : Section) (hs : s = ⟨bs, tail.take size, contents⟩) : s.bytes.length = 1 + bs.length + size := by
      rw [s.length_bytes, hs, hpayload]
    refine ⟨⟨bs, tail.take size, contents⟩, tail.drop size, ?_, ⟨?_, ?_, ?_⟩, hfollows, hmatches, rfl, ?_⟩
    · rw [hrest]
      simp only [Section.bytes, List.cons_append, List.append_assoc, List.take_append_drop]
    · rwa [hpayload]
    · rw [hpayload]
      exact Nat.le_of_not_lt hlimit
    · rw [hbytes _ rfl, ← Nat.add_assoc, ← Nat.add_assoc]
      exact hstands
    · rw [hbytes _ rfl]
      simp only [Cursor.advance, Nat.add_assoc]
  · rintro ⟨⟨bs, payload, contents⟩, rest, hrest, hstands, hfollows, hmatches, rfl, rfl⟩
    obtain ⟨hsize, hlimit, hpayload⟩ := hstands
    rw [Section.length_bytes, ← Nat.add_assoc, ← Nat.add_assoc] at hpayload
    have hlength := hc.length_rest
    rw [hrest, List.length_append, Section.length_bytes] at hlength
    have hrest₁ : (c.advance 1).rest = bs ++ (payload ++ rest) := by
      rw [Cursor.rest_advance, hrest, Section.bytes, List.cons_append, List.cons_append, List.append_assoc]
      rfl
    have hfits : payload.length ≤ ((c.advance 1).advance bs.length).remaining := by
      simp only [Cursor.remaining, Cursor.pos_advance, Cursor.stop_advance] at hlength ⊢
      omega
    refine estate_bind_eq_ok.mpr ⟨_, _, position_eq_ok.mpr ⟨rfl, rfl⟩, ?_⟩
    refine estate_bind_eq_ok.mpr ⟨contents.id, _, byte_eq_ok_iff.mpr ⟨by rw [hrest]; rfl, rfl⟩, ?_⟩
    refine estate_bind_eq_ok.mpr ⟨_, _, position_eq_ok.mpr ⟨rfl, rfl⟩, ?_⟩
    refine estate_bind_eq_ok.mpr ⟨payload.length, _, u32_eq_ok.mpr ⟨bs.length, ?_, rfl⟩, ?_⟩
    · exact ⟨bs, hsize, hrest₁ ▸ List.prefix_append _ _, rfl⟩
    refine check_eq_ok.mpr ⟨Nat.not_lt.mpr hlimit, ?_⟩
    refine estate_bind_eq_ok.mpr ⟨_, _, remaining_eq_ok.mpr ⟨rfl, rfl⟩, ?_⟩
    refine check_eq_ok.mpr ⟨Nat.not_lt.mpr hfits, ?_⟩
    refine (payload_eq_ok _).mpr ⟨hfits, ?_, contents, rfl, hpayload, hfollows, hmatches, rfl⟩
    simp only [Cursor.advance, Section.length_bytes, Nat.add_assoc]

/-- No section stands where no byte is left. -/
theorem nil_of_remaining (hc : c.Sound) (he : c.remaining = 0) {sections : List Section}
    (hs : c.rest = sections.flatMap Section.bytes) : sections = [] := by
  rw [← hc.length_rest, List.length_eq_zero_iff, hs, List.flatMap_eq_nil_iff] at he
  exact List.eq_nil_iff_forall_not_mem.mpr fun s hmem => s.bytes_ne_nil (he s hmem)

/-- **Sections take up the rest** of a module's bytes, behind others up to a place in the order. -/
def SectionsAt (features : Features) (limits : DecodeLimits) (c : Cursor) (rank : Nat) (m : RawModule)
    (sections : List Section) : Prop :=
  c.rest = sections.flatMap Section.bytes ∧ Section.StandFrom features limits c.data c.pos sections ∧
    Section.InOrder rank sections ∧ Section.Matching m sections

theorem sectionsAt_nil (hc : c.Sound) (he : c.remaining = 0) {rank : Nat} {sections : List Section} :
    SectionsAt features limits c rank m sections ↔ sections = [] := by
  constructor
  · rintro ⟨hs, -⟩
    exact nil_of_remaining hc he hs
  · rintro rfl
    refine ⟨?_, trivial, List.pairwise_singleton _ _, trivial⟩
    rw [List.flatMap_nil, ← List.length_eq_zero_iff, hc.length_rest, he]

theorem sectionsAt_cons {rank : Nat} {s : Section} {rest : List Section} :
    SectionsAt features limits c rank m (s :: rest) ↔ ∃ next, (∃ bytes, c.rest = s.bytes ++ bytes) ∧
      s.StandsAt features limits c.data c.pos ∧ s.Follows rank next ∧ s.contents.Matches m ∧
        SectionsAt features limits (c.advance s.bytes.length) next (s.contents.addTo m) rest := by
  unfold SectionsAt
  rw [c.rest_advance, List.flatMap_cons, Section.inOrder_cons]
  constructor
  · rintro ⟨hrest, ⟨hstands, hmore⟩, ⟨next, hfollows, horder⟩, hmatches, hmatching⟩
    refine ⟨next, ⟨_, hrest⟩, hstands, hfollows, hmatches, ?_, hmore, horder, hmatching⟩
    rw [hrest, List.drop_left]
  · rintro ⟨next, ⟨bytes, hrest⟩, hstands, hfollows, hmatches, hbehind, hmore, horder, hmatching⟩
    refine ⟨?_, ⟨hstands, hmore⟩, ⟨next, hfollows, horder⟩, hmatches, hmatching⟩
    rw [← hbehind, hrest, List.drop_left]

/-- **Sections up to the end**: an induction over the fuel, in which place and module are those reached so far. -/
theorem sections_eq_ok (hc : c.Sound) {fuel rank : Nat} (hfuel : c.remaining ≤ fuel) :
    sections features limits fuel rank m c = .ok m' c' ↔ ∃ S, SectionsAt features limits c rank m S ∧
      m.extend S = m' ∧ c.advance c.remaining = c' := by
  induction fuel generalizing rank m c with
  | zero =>
    have he := Nat.le_zero.mp hfuel
    simp only [sections, estate_pure_eq_ok, sectionsAt_nil hc he, exists_eq_left, he]
    rfl
  | succ fuel ih =>
    change (atEnd >>= fun e => if e then pure m else
      oneSection features limits rank m >>= fun r => sections features limits fuel r.1 r.2) c = _ ↔ _
    rw [estate_bind_of_ok (atEnd_eq_ok.mpr ⟨rfl, rfl⟩)]
    by_cases he : c.remaining = 0
    · simp only [Cursor.isEmpty_iff.mpr he, if_true, estate_pure_eq_ok, sectionsAt_nil hc he, exists_eq_left, he]
      rfl
    · rw [if_neg (he ∘ Cursor.isEmpty_iff.mp), estate_bind_eq_ok]
      have hmove {s : Section} {rest : List UInt8} (hrest : c.rest = s.bytes ++ rest) :
          s.bytes.length ≤ c.remaining ∧ (c.advance s.bytes.length).remaining ≤ fuel := by
        have hlength := hc.length_rest
        rw [hrest, List.length_append, s.length_bytes] at hlength
        rw [c.remaining_advance, s.length_bytes]
        exact ⟨by omega, by omega⟩
      have hall {k : Nat} (hk : k ≤ c.remaining) : (c.advance k).advance (c.advance k).remaining =
          c.advance c.remaining := by
        rw [c.advance_advance, c.remaining_advance, Nat.add_sub_cancel' hk]
      constructor
      · rintro ⟨⟨next, m₁⟩, _, h, hmore⟩
        obtain ⟨s, rest, hrest, hstands, hfollows, hmatches, rfl, rfl⟩ := (oneSection_eq_ok hc).mp h
        obtain ⟨hle, hless⟩ := hmove hrest
        obtain ⟨S, hS, rfl, rfl⟩ := (ih (hc.advance hle) hless).mp hmore
        refine ⟨s :: S, sectionsAt_cons.mpr ⟨next, ⟨rest, hrest⟩, hstands, hfollows, hmatches, hS⟩, rfl, ?_⟩
        exact (hall hle).symm
      · rintro ⟨S, hS, rfl, rfl⟩
        rcases S with - | ⟨s, S⟩
        · have hempty := hc.length_rest
          rw [hS.1] at hempty
          exact absurd hempty.symm he
        obtain ⟨next, ⟨rest, hrest⟩, hstands, hfollows, hmatches, hS⟩ := sectionsAt_cons.mp hS
        obtain ⟨hle, hless⟩ := hmove hrest
        refine ⟨(next, s.contents.addTo m), _,
          (oneSection_eq_ok hc).mpr ⟨s, rest, hrest, hstands, hfollows, hmatches, rfl, rfl⟩, ?_⟩
        exact (ih (hc.advance hle) hless).mpr ⟨S, hS, rfl, hall hle⟩

end Decoder

/-! ### As many bodies as functions -/

/-- Behind the code no section declares functions or has bodies. -/
theorem Contents.addTo_behind {contents : Contents} (h : ∀ place, contents.rank? = some place → 11 < place) :
    (contents.addTo m).bodies = m.bodies ∧ (contents.addTo m).functions = m.functions := by
  cases contents with
  | code => exact absurd (h 11 rfl) (by decide)
  | functions => exact absurd (h 3 rfl) (by decide)
  | _ => exact ⟨rfl, rfl⟩

theorem RawModule.extend_behind {rank : Nat} (hrank : 11 ≤ rank) {S : List Section} (h : Section.InOrder rank S) :
    (m.extend S).bodies = m.bodies ∧ (m.extend S).functions = m.functions := by
  induction S generalizing rank m with
  | nil => exact ⟨rfl, rfl⟩
  | cons s S ih =>
    obtain ⟨next, hfollows, hrest⟩ := Section.inOrder_cons.mp h
    unfold Section.Follows at hfollows
    obtain ⟨hnext, hplace⟩ : 11 ≤ next ∧ ∀ place, s.contents.rank? = some place → 11 < place := by
      cases hr : s.contents.rank? with
      | none =>
        rw [hr] at hfollows
        exact ⟨hfollows ▸ hrank, nofun⟩
      | some place =>
        rw [hr] at hfollows
        obtain ⟨hlt, rfl⟩ := hfollows
        refine ⟨by omega, ?_⟩
        rintro _ ⟨⟩
        omega
    obtain ⟨hbodies, hfunctions⟩ := Contents.addTo_behind (m := m) hplace
    obtain ⟨hbodies', hfunctions'⟩ := ih (m := s.contents.addTo m) hnext hrest
    exact ⟨hbodies'.trans hbodies, hfunctions'.trans hfunctions⟩

theorem Section.matching_of_agree {rank : Nat} {S : List Section} (h : InOrder rank S)
    (hagree : (m.extend S).bodies.length = (m.extend S).functions.length) : Matching m S := by
  induction S generalizing rank m with
  | nil => trivial
  | cons s S ih =>
    obtain ⟨next, hfollows, hrest⟩ := inOrder_cons.mp h
    refine ⟨fun entries hcode => ?_, ih hrest hagree⟩
    unfold Follows at hfollows
    rw [hcode] at hfollows
    obtain ⟨-, rfl⟩ : rank < 11 ∧ 11 = next := hfollows
    obtain ⟨hbodies, hfunctions⟩ := RawModule.extend_behind (m := s.contents.addTo m) (Nat.le_refl 11) hrest
    change ((s.contents.addTo m).extend S).bodies.length = ((s.contents.addTo m).extend S).functions.length at hagree
    rw [hbodies, hfunctions, hcode] at hagree
    simpa [Contents.addTo] using hagree

theorem Section.inOrder_zero {S : List Section} :
    InOrder 0 S ↔ (S.filterMap (·.contents.rank?)).Pairwise (· < ·) := by
  unfold InOrder
  rw [List.pairwise_cons, and_iff_right]
  intro place hplace
  obtain ⟨s, -, hs⟩ := List.mem_filterMap.mp hplace
  obtain ⟨i, -, rfl⟩ := Option.map_eq_some_iff.mp hs
  exact Nat.succ_pos i

/-! ### Modules -/

namespace Decoder

theorem toList_take {n : Nat} (hn : n ≤ c.remaining) : (c.take n).toList = c.rest.take n := by
  rw [← Cursor.rest_window hn]
  change (c.data.extract c.pos (c.pos + n)).toList = (c.data.toList.take (c.pos + n)).drop c.pos
  rw [ByteArray.toList_eq, ByteArray.toList_eq, ByteArray.data_extract, Array.toList_extract, List.extract_eq_take_drop,
    List.drop_take]

theorem headerWord_eq_ok (hc : c.Sound) {expected : List UInt8} (hfour : expected.length = 4) {fault : DecodeFault} :
    headerWord expected fault c = .ok () c' ↔ (∃ rest, c.rest = expected ++ rest) ∧ c.advance 4 = c' := by
  constructor
  · intro h
    obtain ⟨start, _, hstart, h⟩ := estate_bind_eq_ok.mp h
    obtain ⟨-, rfl⟩ := position_eq_ok.mp hstart
    obtain ⟨_, _, hleft, h⟩ := estate_bind_eq_ok.mp h
    obtain ⟨rfl, rfl⟩ := remaining_eq_ok.mp hleft
    obtain ⟨-, h⟩ := check_eq_ok.mp h
    obtain ⟨_, _, hword, h⟩ := estate_bind_eq_ok.mp h
    obtain ⟨hle, rfl, rfl⟩ := bytes_eq_ok.mp hword
    rw [toList_take hle] at h
    by_cases he : c.rest.take 4 = expected
    · rw [if_neg (not_not_intro he)] at h
      cases h
      exact ⟨⟨c.rest.drop 4, by rw [← he, List.take_append_drop]⟩, rfl⟩
    · rw [if_pos he] at h
      nomatch h
  · rintro ⟨⟨rest, hrest⟩, rfl⟩
    have hlength := hc.length_rest
    rw [hrest, List.length_append, hfour] at hlength
    have hle : 4 ≤ c.remaining := by omega
    refine estate_bind_eq_ok.mpr ⟨_, _, position_eq_ok.mpr ⟨rfl, rfl⟩, ?_⟩
    refine estate_bind_eq_ok.mpr ⟨_, _, remaining_eq_ok.mpr ⟨rfl, rfl⟩, ?_⟩
    refine check_eq_ok.mpr ⟨Nat.not_lt.mpr hle, ?_⟩
    refine estate_bind_eq_ok.mpr ⟨_, _, bytes_eq_ok.mpr ⟨hle, rfl, rfl⟩, ?_⟩
    rw [toList_take hle, hrest, List.take_left' hfour, if_neg (not_not_intro rfl)]
    rfl

theorem agreement_eq_ok_iff : agreement m c = .ok () c' ↔ m.bodies.length = m.functions.length ∧
    (∀ n, m.dataCount = some n → n = m.data.length) ∧ c = c' := by
  unfold agreement
  rw [estate_bind_of_ok (position_eq_ok.mpr ⟨rfl, rfl⟩)]
  refine check_eq_ok.trans (and_congr (not_not.trans eq_comm) ?_)
  rcases m.dataCount with - | n
  · simp [estate_pure_eq_ok]
  · by_cases hn : n = m.data.length <;> simp [hn, estate_pure_eq_ok]

/-- **The reader accepts exactly the format.** -/
theorem module_eq_ok {data : ByteArray} : module features limits (.ofBytes data) = .ok m c' ↔
    ∃ S, RawModule.Format features limits data S ∧ RawModule.ofSections S = m ∧ ⟨data, data.size, data.size⟩ = c' := by
  have hc := Cursor.sound_ofBytes data
  have hall := Cursor.rest_ofBytes data
  -- what is known once the header has been read
  have hheader {rest : List UInt8} (hrest : data.toList = magicBytes ++ versionBytes ++ rest) :
      4 ≤ (Cursor.ofBytes data).remaining ∧ 8 ≤ (Cursor.ofBytes data).remaining ∧
        ((Cursor.ofBytes data).advance 8).rest = rest := by
    have hlength := hc.length_rest
    rw [hall, hrest] at hlength
    simp only [List.length_append, magicBytes, versionBytes, List.length_cons, List.length_nil] at hlength
    refine ⟨by omega, by omega, ?_⟩
    rw [Cursor.rest_advance, hall, hrest]
    rfl
  have hend (h : 8 ≤ (Cursor.ofBytes data).remaining) : ((Cursor.ofBytes data).advance 8).advance
      ((Cursor.ofBytes data).advance 8).remaining = ⟨data, data.size, data.size⟩ := by
    rw [Cursor.advance_advance, Cursor.remaining_advance, Nat.add_sub_cancel' h]
    simp [Cursor.advance, Cursor.remaining, Cursor.ofBytes]
  constructor
  · intro h
    obtain ⟨⟨⟩, _, hmagic, h⟩ := estate_bind_eq_ok.mp h
    obtain ⟨⟨rest₁, hrest₁⟩, rfl⟩ := (headerWord_eq_ok hc rfl).mp hmagic
    have hc₁ : ((Cursor.ofBytes data).advance 4).Sound := by
      refine hc.advance ?_
      rw [← hc.length_rest, hrest₁, List.length_append]
      exact Nat.le_add_right _ _
    obtain ⟨⟨⟩, _, hversion, h⟩ := estate_bind_eq_ok.mp h
    obtain ⟨⟨rest, hrest⟩, rfl⟩ := (headerWord_eq_ok hc₁ rfl).mp hversion
    have hbytes : data.toList = magicBytes ++ versionBytes ++ rest := by
      rw [← hall, hrest₁, List.append_assoc, ← hrest, Cursor.rest_advance, hrest₁]
      rfl
    obtain ⟨-, hle, hbehind⟩ := hheader hbytes
    obtain ⟨_, _, hleft, h⟩ := estate_bind_eq_ok.mp h
    obtain ⟨rfl, rfl⟩ := remaining_eq_ok.mp hleft
    obtain ⟨_, _, hsections, h⟩ := estate_bind_eq_ok.mp h
    obtain ⟨S, ⟨hS, hstand, horder, -⟩, rfl, rfl⟩ := (sections_eq_ok (hc.advance hle) (Nat.le_refl _)).mp hsections
    obtain ⟨⟨⟩, _, hagree, h⟩ := estate_bind_eq_ok.mp h
    obtain ⟨hbodies, hdata, rfl⟩ := agreement_eq_ok_iff.mp hagree
    obtain ⟨rfl, rfl⟩ := estate_pure_eq_ok.mp h
    refine ⟨S, ⟨?_, hstand, Section.inOrder_zero.mp horder, hbodies, hdata⟩, rfl, (hend hle).symm⟩
    rw [hbytes, ← hbehind, hS]
  · rintro ⟨S, hS, rfl, rfl⟩
    obtain ⟨hfour, hle, hbehind⟩ := hheader hS.bytes
    have horder := Section.inOrder_zero.mpr hS.ordered
    have hmagic : ∃ rest, (Cursor.ofBytes data).rest = magicBytes ++ rest := ⟨_, by
      rw [hall, hS.bytes, List.append_assoc]⟩
    have hversion : ∃ rest, ((Cursor.ofBytes data).advance 4).rest = versionBytes ++ rest := ⟨_, by
      rw [Cursor.rest_advance, hall, hS.bytes]
      rfl⟩
    refine estate_bind_eq_ok.mpr ⟨(), _, (headerWord_eq_ok hc rfl).mpr ⟨hmagic, rfl⟩, ?_⟩
    refine estate_bind_eq_ok.mpr ⟨(), _, (headerWord_eq_ok (hc.advance hfour) rfl).mpr ⟨hversion, rfl⟩, ?_⟩
    refine estate_bind_eq_ok.mpr ⟨_, _, remaining_eq_ok.mpr ⟨rfl, rfl⟩, ?_⟩
    refine estate_bind_eq_ok.mpr ⟨_, _, (sections_eq_ok (hc.advance hle) (Nat.le_refl _)).mpr ⟨S, ?_, rfl, rfl⟩, ?_⟩
    · exact ⟨hbehind, hS.stand, horder, Section.matching_of_agree horder hS.bodies⟩
    · refine estate_bind_eq_ok.mpr ⟨(), _, agreement_eq_ok_iff.mpr ⟨hS.bodies, hS.dataCount, rfl⟩, ?_⟩
      exact estate_pure_eq_ok.mpr ⟨rfl, hend hle⟩

end Decoder

/-- What is read from bytes is what their sections add up to. -/
theorem RawModule.ofBytes_eq_ok_iff {data : ByteArray} :
    ofBytes data features limits = .ok m ↔ ∃ S, Format features limits data S ∧ ofSections S = m := by
  rw [ofBytes_eq_ok]
  constructor
  · rintro ⟨c, h⟩
    obtain ⟨S, hS, rfl, -⟩ := Decoder.module_eq_ok.mp h
    exact ⟨S, hS, rfl⟩
  · rintro ⟨S, hS, rfl⟩
    exact ⟨_, Decoder.module_eq_ok.mpr ⟨S, hS, rfl, rfl⟩⟩

end WasmEngine
