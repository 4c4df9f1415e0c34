import WasmEngine.Proofs.Binary.Parallel

/-!
# Reading with more proposals

A proposal that is off takes instructions and encodings away and never gives a byte another meaning. So a
decoder that accepts something with some proposals accepts it with more, reads the same, and ends at the same
place: it is `Below` the decoder with more of them.

That is so for decoders that are put together in the same way (`Decoder.Parallel.eq_ok`), and so for those of the parts
of sections; the sections and the module follow.
-/

namespace WasmEngine

variable {f g : Features}

namespace Decoder

variable {α β : Type} {d d' : Decoder α} {k k' : α → Decoder β}

/-- **A decoder accepts no more than another**: whatever it reads, the other reads as well, with the same
result and up to the same place. -/
def Below (d d' : Decoder α) : Prop := ∀ c a c', d c = .ok a c' → d' c = .ok a c'

namespace Below

protected theorem rfl : Below d d := fun _ _ _ h => h

theorem bind (h : Below d d') (hk : ∀ a, Below (k a) (k' a)) : Below (d >>= k) (d' >>= k') := by
  intro c b c' hr
  obtain ⟨a, c₁, ha, hb⟩ := estate_bind_eq_ok.mp hr
  exact estate_bind_eq_ok.mpr ⟨a, c₁, h _ _ _ ha, hk a _ _ _ hb⟩

/-- The same first part. -/
theorem next (hk : ∀ a, Below (k a) (k' a)) : Below (d >>= k) (d >>= k') := .bind .rfl hk

theorem ite {c : Prop} [Decidable c] {e e' : Decoder α} (h : Below d d') (he : Below e e') :
    Below (if c then d else e) (if c then d' else e') := by
  split
  · exact h
  · exact he

/-- The same check in front of what follows. -/
theorem gate {c : Prop} [Decidable c] {fault : DecodeFault} {offset : Nat} {l l' : Unit → Decoder α}
    (h : Below (l ()) (l' ())) : Below (if c then Decoder.fail fault offset >>= l else l ())
      (if c then Decoder.fail fault offset >>= l' else l' ()) := .ite (fun _ _ _ hr => nomatch hr) h

theorem within (h : Below d d') (length : Nat) : Below (within length d) (within length d') := by
  rintro c ⟨a, w⟩ c' hr
  rw [within_eq_ok] at hr ⊢
  exact ⟨hr.1, h _ _ _ hr.2.1, hr.2.2⟩

theorem items (h : Below d d') : ∀ n, Below (items d n) (items d' n)
  | 0 => .rfl
  | n + 1 => .bind h fun _ => .bind (items h n) fun _ => .rfl

theorem vector (h : Below d d') : Below (vector d) (vector d') := .next fun n => h.items n

end Below

/-- What is required does not change what is read behind it. -/
theorem below_of_require {p : Proposal} {offset : Nat} {k : Unit → Decoder β} :
    Below (require f p offset >>= k) (k ()) := by
  unfold require
  split
  · exact .rfl
  · exact fun _ _ _ h => nomatch h

/-- What is read with the proposals of the first decoder. -/
theorem Parallel.eq_ok {F : α → β} {d' : Decoder β} (h : Parallel f g id (fun _ => True) F d d') {c c' : Cursor} {a : α}
    (hd : d c = .ok a c') : d' c = .ok (F a) c' := by
  generalize hAt : (fun _ : Nat => True) = At at h
  induction h generalizing c c' with
  | pure =>
    obtain ⟨rfl, rfl⟩ := estate_pure_eq_ok.mp hd
    rfl
  | bind _ _ ihd ihk =>
    obtain ⟨a, c₁, ha, hb⟩ := estate_bind_eq_ok.mp hd
    exact estate_bind_eq_ok.mpr ⟨_, c₁, ihd ha hAt, ihk a hb hAt⟩
  | fail | refused => nomatch hd
  | start _ ihk =>
    obtain ⟨p, c₁, hp, hb⟩ := estate_bind_eq_ok.mp hd
    exact estate_bind_eq_ok.mpr ⟨p, c₁, hp, ihk p (hAt ▸ trivial) hb hAt⟩
  | remaining | atEnd | peek | byte | bytes | u32 | signed | finish => exact hd
  | within _ n _ ihd ihk =>
    obtain ⟨⟨a, w⟩, c₁, hw, hb⟩ := estate_bind_eq_ok.mp hd
    obtain ⟨hn, ha, rfl⟩ := within_eq_ok.mp hw
    exact estate_bind_eq_ok.mpr ⟨_, _, within_eq_ok.mpr ⟨hn, ihd _ ha rfl, rfl⟩, ihk a w w hb hAt⟩

/-- Decoders that are put together in the same way. -/
theorem Below.of_parallel (h : Parallel f g id (fun _ => True) id d d') : Below d d' := fun _ _ _ hr => h.eq_ok hr

/-! ### Sections -/

theorem below_funcType (h : f ≤ g) : Below (funcType f) (funcType g) := .of_parallel (.funcType h)

theorem below_tableType (h : f ≤ g) : Below (tableType f) (tableType g) := .of_parallel (.tableType h)

theorem below_importEntry (h : f ≤ g) : Below (importEntry f) (importEntry g) := .of_parallel (.importEntry h)

theorem below_globalDef (h : f ≤ g) : Below (globalDef f) (globalDef g) := .of_parallel (.globalDef h)

theorem below_elementSegment (h : f ≤ g) : Below (elementSegment f) (elementSegment g) :=
  .of_parallel (.elementSegment h)

theorem below_dataSegment (h : f ≤ g) : Below (dataSegment f) (dataSegment g) := .of_parallel (.dataSegment h)

theorem below_sizedBody (h : f ≤ g) (limits : DecodeLimits) : Below (sizedBody f limits) (sizedBody g limits) := by
  intro c body c' hr
  have hsame : body.mapOffsets id = body := body.mapOffsets_id
  rw [(Parallel.sizedBody h limits).eq_ok hr, hsame]

theorem below_codeSection (h : f ≤ g) (limits : DecodeLimits) (declared : Nat) :
    Below (codeSection f limits declared) (codeSection g limits declared) :=
  have hbodies (n : Nat) := (below_sizedBody h limits).items n
  .next fun n => .ite (.next fun _ => .next fun _ => hbodies n) (hbodies n)

theorem below_knownSection (h : f ≤ g) (limits : DecodeLimits) (id : UInt8) (m : RawModule) :
    Below (knownSection f limits id m) (knownSection g limits id m) := by
  unfold knownSection
  split
  case h_1 => exact .bind (below_funcType h).vector fun _ => .rfl
  case h_2 => exact .bind (below_importEntry h).vector fun _ => .rfl
  case h_4 => exact .bind (below_tableType h).vector fun _ => .rfl
  case h_6 => exact .bind (below_globalDef h).vector fun _ => .rfl
  case h_9 => exact .bind (below_elementSegment h).vector fun _ => .rfl
  case h_10 => exact .bind (below_codeSection h _ _) fun _ => .rfl
  case h_11 => exact .bind (below_dataSegment h).vector fun _ => .rfl
  all_goals exact .rfl

theorem below_wholeSection (h : f ≤ g) (limits : DecodeLimits) (id : UInt8) (m : RawModule) :
    Below (wholeSection f limits id m) (wholeSection g limits id m) :=
  .bind (below_knownSection h limits id m) fun _ => .rfl

theorem below_oneSection (h : f ≤ g) (limits : DecodeLimits) (rank : Nat) (m : RawModule) :
    Below (oneSection f limits rank m) (oneSection g limits rank m) := by
  refine .next fun start => .next fun id => .next fun _ => .next fun size => .gate ?_
  refine .next fun rest => .gate <| .ite .rfl ?_
  split
  · exact .rfl
  · exact .gate <| .bind (.within (below_wholeSection h limits id m) size) fun _ => .rfl

theorem below_sections (h : f ≤ g) (limits : DecodeLimits) (fuel rank : Nat) (m : RawModule) :
    Below (sections f limits fuel rank m) (sections g limits fuel rank m) := by
  induction fuel generalizing rank m with
  | zero => exact .rfl
  | succ fuel ih => exact .next fun _ => .ite .rfl (.bind (below_oneSection h limits rank m) fun r => ih _ _)

theorem below_module (h : f ≤ g) (limits : DecodeLimits) : Below (module f limits) (module g limits) :=
  .next fun _ => .next fun _ => .next fun _ => .bind (below_sections h _ _ _ _) fun _ => .rfl

end Decoder

/-- **With more proposals a module is read as before**, if it is read at all. -/
theorem RawModule.ofBytes_mono (h : f ≤ g) {bytes : ByteArray} {limits : DecodeLimits} {m : RawModule}
    (hm : ofBytes bytes f limits = .ok m) : ofBytes bytes g limits = .ok m := by
  obtain ⟨c, hc⟩ := ofBytes_eq_ok.mp hm
  exact ofBytes_eq_ok.mpr ⟨c, Decoder.below_module h limits _ _ _ hc⟩

end WasmEngine
