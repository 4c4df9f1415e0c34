import WasmEngine.Proofs.Binary.Relocation

/-!
# Modules that are cut off

Bytes of a module may be cut off anywhere. A section of which the end is missing is not looked into: its size is
compared with the bytes that are left before anything of it is read. So if a module's bytes are cut off, either the
cut lies between two sections, and what is read is what the sections before it add up to, or a fault of the format is
found (`RawModule.ofBytes_cut`). No initializer is ever read in part, and it is only these that can have a fault of
another category.
-/

namespace WasmEngine

variable {features : Features} {limits : DecodeLimits} {m : RawModule} {rank : Nat}

/-! ### Faults of the format -/

theorem Leb128.Refused.category {Fits : Nat → UInt8 → Prop} {width n : Nat} {l : List UInt8} {fault : DecodeFault}
    (h : Refused Fits width l fault n) : fault.category = .decode := by
  cases h <;> rfl

/-- What stands behind the window, if the cursor is in it. -/
theorem Cursor.Sound.drop_pos {c : Cursor} (h : c.Sound) :
    c.data.toList.drop c.pos = c.rest ++ c.data.toList.drop c.stop := by
  have hlength : c.data.toList.length = c.data.size := by
    rw [ByteArray.toList_eq]
    rfl
  have hpos : c.pos ≤ (c.data.toList.take c.stop).length := by
    rw [List.length_take, hlength, Nat.min_eq_left h.stop]
    exact h.pos
  conv_lhs => rw [← List.take_append_drop c.stop c.data.toList]
  exact List.drop_append_of_le_length hpos

namespace Decoder

variable {α : Type}

/-- A decoder fails with a fault of the format, if it fails. -/
def Formal (d : Decoder α) (c : Cursor) (ok : α → Cursor → Prop) : Prop :=
  Yields d c ok fun e _ => e.fault.category = .decode

/-- If all that is known are its faults, a result is still known to be one. -/
theorem Formal.of_faults {d : Decoder α} {c : Cursor} (h : ∀ e c', d c = .error e c' → e.fault.category = .decode) :
    Formal d c fun a c' => d c = .ok a c' := .of_cases (fun _ _ h => h) h

theorem Formal.result {d : Decoder α} {c : Cursor} {ok : α → Cursor → Prop} (h : Formal d c ok) :
    Formal d c fun a c' => d c = .ok a c' := .of_faults fun _ _ => h.error_of

theorem formal_byte (c : Cursor) : Formal byte c fun b c' => byte c = .ok b c' :=
  .of_faults fun _ _ h => by rw [(byte_eq_error h).1]; rfl

theorem formal_bytes (n : Nat) (c : Cursor) : Formal (bytes n) c fun bs c' => bytes n c = .ok bs c' :=
  .of_faults fun _ _ h => by rw [(bytes_eq_error h).1]; rfl

theorem formal_u32 (c : Cursor) : Formal u32 c fun n c' => u32 c = .ok n c' := .of_faults fun _ _ h => by
  obtain ⟨_, _, hfault, rfl⟩ := refused_of_ofLeb128 (by decide) (by decide) (fun _ _ => Leb128.unsignedFrom_eq ..) h
  exact hfault.category

/-! ### Sections -/

/-- **A section that is cut off is not looked into.** -/
theorem formal_oneSection_cut {c c' : Cursor} (hc' : c'.Sound) (hpre : c'.rest <+: c.rest) {s : Section}
    {rest : List UInt8} (hrest : c.rest = s.bytes ++ rest) (hs : s.StandsAt features limits c.data c.pos)
    (hshort : c'.remaining < s.bytes.length) :
    Formal (oneSection features limits rank m) c' fun _ _ => False := by
  rw [s.length_bytes] at hshort
  refine .bind_of_ok (position_eq_ok.mpr ⟨rfl, rfl⟩) <| .bind (formal_byte c') fun id c₁ hid => ?_
  obtain ⟨hhead, rfl⟩ := byte_eq_ok_iff.mp hid
  refine .bind_of_ok (position_eq_ok.mpr ⟨rfl, rfl⟩) <| .bind (formal_u32 _) fun size c₂ hsize => ?_
  obtain ⟨length, hlength, rfl⟩ := u32_eq_ok.mp hsize
  -- a size that is still complete is what it was
  obtain ⟨rfl, rfl⟩ : size = s.payload.length ∧ length = s.size.length := by
    have hbehind : (c'.advance 1).rest <+: s.size ++ (s.payload ++ rest) := by
      have hdrop := hpre.drop 1
      rw [hrest, Section.bytes, List.cons_append, List.cons_append, List.append_assoc] at hdrop
      rwa [Cursor.rest_advance]
    exact (hlength.mono hbehind).unique ⟨s.size, hs.size, List.prefix_append _ _, rfl⟩
  have hlimit : ¬limits.maxSectionSize < s.payload.length := Nat.not_lt.mpr hs.limit
  rw [if_neg hlimit]
  refine .bind_of_ok (remaining_eq_ok.mpr ⟨rfl, rfl⟩) ?_
  have hexceeds : ((c'.advance 1).advance s.size.length).remaining < s.payload.length := by
    have hfirst : 0 < c'.remaining := by
      rw [← hc'.length_rest]
      exact List.length_pos_of_mem (List.mem_of_mem_head? hhead)
    have hread := Cursor.remaining_of_unsignedAt hlength
    rw [Cursor.remaining_advance] at hread
    rw [Cursor.remaining_advance, Cursor.remaining_advance]
    omega
  rw [if_pos hexceeds]
  exact .of_error rfl rfl

/-- A section that is whole is read as before. -/
theorem oneSection_cut {c c' : Cursor} (hc : c.Sound) (hc' : c'.Sound) (hpos : c'.pos = c.pos)
    (hpre : c'.rest <+: c.rest) {s : Section} {rest : List UInt8} (hrest : c.rest = s.bytes ++ rest)
    (hs : s.StandsAt features limits c.data c.pos) (hlong : s.bytes.length ≤ c'.remaining) {next : Nat}
    (hfollows : s.Follows rank next) (hmatches : s.contents.Matches m) :
    oneSection features limits rank m c' = .ok (next, s.contents.addTo m) (c'.advance s.bytes.length) := by
  obtain ⟨rest', hrest'⟩ : s.bytes <+: c'.rest :=
    List.prefix_of_prefix_length_le (hrest ▸ List.prefix_append _ _) hpre (hc'.length_rest ▸ hlong)
  have hstands : s.StandsAt features limits c'.data c'.pos := by
    rw [hpos, ← s.mapOffsets_id]
    refine hs.later (k := 0) ?_ ?_
    · rw [hc.drop_pos, hrest, List.append_assoc]
      exact List.prefix_append _ _
    · rw [Nat.add_zero, ← hpos, hc'.drop_pos, ← hrest', List.append_assoc]
      exact List.prefix_append _ _
  exact (oneSection_eq_ok hc').mpr ⟨s, rest', hrest'.symm, hstands, hfollows, hmatches, rfl, rfl⟩

theorem formal_sections_end {c : Cursor} (hc : c.Sound) (hend : c.remaining = 0) {fuel : Nat} (S : List Section) :
    Formal (sections features limits fuel rank m) c fun m' _ => ∃ S₁ S₂, S = S₁ ++ S₂ ∧ m' = m.extend S₁ := by
  have hread : sections features limits fuel rank m c = .ok (m.extend []) (c.advance c.remaining) :=
    (sections_eq_ok hc (hend ▸ Nat.zero_le _)).mpr ⟨[], (sectionsAt_nil hc hend).mpr rfl, rfl, rfl⟩
  exact .of_ok hread ⟨[], S, rfl, rfl⟩

/-- **Sections that are cut off**: either the cut lies between two of them, or a fault of the format is found. The
induction is over the sections of the whole module. -/
theorem formal_sections_cut {S : List Section} {c c' : Cursor} (hc : c.Sound) (hc' : c'.Sound) (hpos : c'.pos = c.pos)
    (hpre : c'.rest <+: c.rest) {fuel : Nat} (hfuel : c'.remaining ≤ fuel)
    (hS : SectionsAt features limits c rank m S) : Formal (sections features limits fuel rank m) c' fun m' _ =>
      ∃ S₁ S₂, S = S₁ ++ S₂ ∧ m' = m.extend S₁ := by
  induction S generalizing c c' rank m fuel with
  | nil =>
    have hend : c'.remaining = 0 := by
      rw [hS.1] at hpre
      rw [← hc'.length_rest, List.prefix_nil.mp hpre]
      rfl
    exact formal_sections_end hc' hend []
  | cons s S ih =>
    by_cases hend : c'.remaining = 0
    · exact formal_sections_end hc' hend (s :: S)
    obtain ⟨fuel, rfl⟩ : ∃ n, fuel = n + 1 := ⟨fuel - 1, by omega⟩
    obtain ⟨next, ⟨bytes, hrest⟩, hs, hfollows, hmatches, hS⟩ := sectionsAt_cons.mp hS
    refine .bind_of_ok (atEnd_eq_ok.mpr ⟨rfl, rfl⟩) ?_
    rw [if_neg (hend ∘ Cursor.isEmpty_iff.mp)]
    by_cases hlong : s.bytes.length ≤ c'.remaining
    · have hless : s.bytes.length ≤ c.remaining := by
        rw [← hc.length_rest, hrest, List.length_append]
        exact Nat.le_add_right _ _
      have hpos' : (c'.advance s.bytes.length).pos = (c.advance s.bytes.length).pos := by
        rw [Cursor.pos_advance, Cursor.pos_advance, hpos]
      have hpre' : (c'.advance s.bytes.length).rest <+: (c.advance s.bytes.length).rest := by
        rw [Cursor.rest_advance, Cursor.rest_advance]
        exact hpre.drop _
      have hfuel' : (c'.advance s.bytes.length).remaining ≤ fuel := by
        rw [Cursor.remaining_advance, s.length_bytes]
        omega
      refine .bind_of_ok (oneSection_cut hc hc' hpos hpre hrest hs hlong hfollows hmatches) ?_
      refine (ih (hc.advance hless) (hc'.advance hlong) hpos' hpre' hfuel' hS).mono ?_
      rintro m' _ ⟨S₁, S₂, rfl, rfl⟩
      exact ⟨s :: S₁, S₂, rfl, rfl⟩
    · exact .bind (formal_oneSection_cut hc' hpre hrest hs (Nat.lt_of_not_le hlong)) nofun

/-! ### Modules -/

theorem formal_headerWord (expected : List UInt8) {fault : DecodeFault} (hfault : fault.category = .decode)
    (c : Cursor) : Formal (headerWord expected fault) c fun _ _ => True := by
  refine .bind_of_ok (position_eq_ok.mpr ⟨rfl, rfl⟩) <| .bind_of_ok (remaining_eq_ok.mpr ⟨rfl, rfl⟩) ?_
  split
  · exact .of_error rfl hfault
  · refine .bind (formal_bytes 4 c) fun word c' _ => ?_
    split
    · exact .of_error rfl hfault
    · exact .of_ok rfl trivial

theorem formal_agreement (m : RawModule) (c : Cursor) : Formal (agreement m) c fun _ _ => True := by
  refine .bind_of_ok (position_eq_ok.mpr ⟨rfl, rfl⟩) ?_
  by_cases hbodies : m.functions.length ≠ m.bodies.length
  · rw [if_pos hbodies]
    exact .of_error rfl rfl
  · rw [if_neg hbodies]
    split
    · split
      · exact .of_error rfl rfl
      · exact .of_ok rfl trivial
    · exact .of_ok rfl trivial

theorem formal_module_cut {data cut : ByteArray} {S : List Section} (h : RawModule.Format features limits data S)
    (hcut : cut.toList <+: data.toList) : Formal (module features limits) (.ofBytes cut) fun m _ =>
      ∃ S₁ S₂, S = S₁ ++ S₂ ∧ m = RawModule.ofSections S₁ := by
  have hc := Cursor.sound_ofBytes cut
  refine .bind (formal_headerWord _ rfl _).result fun _ c₁ hmagic => ?_
  obtain ⟨⟨rest₁, hrest₁⟩, rfl⟩ := (headerWord_eq_ok hc rfl).mp hmagic
  have hfour : 4 ≤ (Cursor.ofBytes cut).remaining := by
    rw [← hc.length_rest, hrest₁, List.length_append]
    exact Nat.le_add_right _ _
  refine .bind (formal_headerWord _ rfl _).result fun _ c₂ hversion => ?_
  obtain ⟨⟨rest₂, hrest₂⟩, rfl⟩ := (headerWord_eq_ok (hc.advance hfour) rfl).mp hversion
  have height : 4 ≤ ((Cursor.ofBytes cut).advance 4).remaining := by
    rw [← (hc.advance hfour).length_rest, hrest₂, List.length_append]
    exact Nat.le_add_right _ _
  have hc' := (hc.advance hfour).advance height
  -- the whole module behind its header
  have hd := Cursor.sound_ofBytes data
  have hlong : 8 ≤ (Cursor.ofBytes data).remaining := by
    rw [← hd.length_rest, Cursor.rest_ofBytes, h.bytes, List.length_append]
    exact Nat.le_add_right _ _
  have hrest : ((Cursor.ofBytes data).advance 8).rest = S.flatMap Section.bytes := by
    rw [Cursor.rest_advance, Cursor.rest_ofBytes, h.bytes]
    rfl
  have hpre : (((Cursor.ofBytes cut).advance 4).advance 4).rest <+: ((Cursor.ofBytes data).advance 8).rest := by
    rw [Cursor.advance_advance, Cursor.rest_advance, Cursor.rest_advance, Cursor.rest_ofBytes, Cursor.rest_ofBytes]
    exact hcut.drop 8
  have horder := Section.inOrder_zero.mpr h.ordered
  refine .bind_of_ok (remaining_eq_ok.mpr ⟨rfl, rfl⟩) ?_
  refine .bind (formal_sections_cut (hd.advance hlong) hc' rfl hpre (Nat.le_refl _)
    ⟨hrest, h.stand, horder, Section.matching_of_agree horder h.bodies⟩) fun m c hm => ?_
  exact .bind (formal_agreement m c) fun _ _ _ => .of_ok rfl hm

end Decoder

/-- **Bytes of a module that are cut off** are those of the sections before the cut, or a fault of the format is
found. -/
theorem RawModule.ofBytes_cut {data cut : ByteArray} {S : List Section} (h : Format features limits data S)
    (hcut : cut.toList <+: data.toList) :
    (∃ S₁ S₂, S = S₁ ++ S₂ ∧ ofBytes cut features limits = .ok (ofSections S₁)) ∨
      ∃ e, ofBytes cut features limits = .error e ∧ e.fault.category = .decode := by
  have hread := Decoder.formal_module_cut h hcut
  unfold Decoder.Formal Yields at hread
  unfold ofBytes EStateM.run
  split at hread
  · next m c hm =>
    obtain ⟨S₁, S₂, hS, rfl⟩ := hread
    rw [hm]
    exact .inl ⟨S₁, S₂, hS, rfl⟩
  · next e c he =>
    rw [he]
    exact .inr ⟨e, rfl, hread⟩

end WasmEngine
