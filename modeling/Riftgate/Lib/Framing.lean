import Mathlib.Data.List.Basic

/-!
# Self-delimiting frames

A decoder looks at the front of its input and sees a whole frame, a reason to stop, or an
error. Decoding repeats that until it stops. A framing adds the writer, with the laws that
tie the two together. Everything that holds of a whole log follows from these laws.
-/

namespace Lib

/-- What a decoder sees at the front of its input. -/
inductive Head (α β ε : Type) where
  | frame (b : β) (rest : List α)
  | stop
  | bad (e : ε)

/-- A frame is never empty, so that decoding ends. -/
structure Decoder (α β ε : Type) where
  head : List α → Head α β ε
  shrinks : ∀ l b rest, head l = .frame b rest → rest.length < l.length

namespace Decoder

variable {α β ε : Type} (D : Decoder α β ε)

def decode (l : List α) : List (Except ε β) :=
  match _h : D.head l with
  | .frame b rest => .ok b :: decode rest
  | .stop => []
  | .bad e => [.error e]
termination_by l.length
decreasing_by exact D.shrinks _ _ _ _h

variable {D}

theorem decode_frame {l rest : List α} {b : β} (h : D.head l = .frame b rest) :
    D.decode l = .ok b :: D.decode rest := by
  rw [decode]; split <;> simp_all

theorem decode_stop {l : List α} (h : D.head l = .stop) : D.decode l = [] := by
  rw [decode]; split <;> simp_all

theorem decode_bad {l : List α} {e : ε} (h : D.head l = .bad e) : D.decode l = [.error e] := by
  rw [decode]; split <;> simp_all

end Decoder

/-- A writer and a decoder that agree on the frames in `dom`. -/
structure Framing (α β ε : Type) extends Decoder α β ε where
  enc : β → List α
  dom : β → Prop
  head_nil : head [] = .stop
  /-- The decoder finds a frame that the writer wrote, whatever comes after it. -/
  head_enc : ∀ b rest, dom b → head (enc b ++ rest) = .frame b rest
  /-- Half a frame is a reason to stop, never a frame and never an error. -/
  head_cut : ∀ b p, dom b → p <+: enc b → p ≠ enc b → head p = .stop
  /-- The decoder invents nothing: a frame that it sees is the writer's. -/
  head_sound : ∀ l b rest, head l = .frame b rest → l = enc b ++ rest ∧ dom b

namespace Framing

variable {α β ε : Type} (F : Framing α β ε)

def encAll (bs : List β) : List α := bs.flatMap F.enc

@[simp] theorem encAll_nil : F.encAll [] = [] := rfl

@[simp] theorem encAll_cons (b : β) (bs : List β) : F.encAll (b :: bs) = F.enc b ++ F.encAll bs := rfl

variable {F}

theorem decode_encAll_append {bs : List β} (h : ∀ b ∈ bs, F.dom b) (rest : List α) :
    F.decode (F.encAll bs ++ rest) = bs.map .ok ++ F.decode rest := by
  induction bs with
  | nil => simp
  | cons b bs ih =>
    have hb := F.head_enc b (F.encAll bs ++ rest) (h b List.mem_cons_self)
    rw [encAll_cons, List.append_assoc, Decoder.decode_frame hb,
      ih (fun c hc => h c (List.mem_cons_of_mem _ hc))]
    rfl

/-- A log cut at any offset decodes to the frames that end before the cut. -/
theorem decode_encAll_take {bs : List β} (h : ∀ b ∈ bs, F.dom b) (n : Nat) :
    ∃ k ≤ bs.length, (F.encAll (bs.take k)).length ≤ n ∧
      (k < bs.length → n < (F.encAll (bs.take (k + 1))).length) ∧
      F.decode ((F.encAll bs).take n) = (bs.take k).map .ok := by
  induction bs generalizing n with
  | nil => exact ⟨0, Nat.le_refl _, by simp, by simp, by simp [Decoder.decode_stop F.head_nil]⟩
  | cons b bs ih =>
    have hb := h b List.mem_cons_self
    by_cases hn : (F.enc b).length ≤ n
    · -- The first frame is whole. The cut is in the rest.
      obtain ⟨k, hk, hle, hlt, hdec⟩ :=
        ih (fun c hc => h c (List.mem_cons_of_mem _ hc)) (n - (F.enc b).length)
      refine ⟨k + 1, by simpa using hk, ?_, ?_, ?_⟩
      · simp only [List.take_succ_cons, encAll_cons, List.length_append]; omega
      · intro hk'
        have := hlt (by simpa using hk')
        simp only [List.take_succ_cons, encAll_cons, List.length_append]; omega
      · rw [encAll_cons, List.take_append, List.take_of_length_le hn,
          Decoder.decode_frame (F.head_enc b _ hb), hdec]
        rfl
    · -- The cut is inside the first frame, so there is nothing whole.
      refine ⟨0, by simp, by simp, ?_, ?_⟩
      · intro _
        simp only [List.take_succ_cons, List.take_zero, encAll_cons, encAll_nil, List.append_nil]
        omega
      · have hcut : (F.encAll (b :: bs)).take n = (F.enc b).take n := by
          rw [encAll_cons, List.take_append_of_le_length (by omega)]
        have hne : (F.enc b).take n ≠ F.enc b := by
          intro he
          have := congrArg List.length he
          simp only [List.length_take] at this
          omega
        rw [hcut, Decoder.decode_stop (F.head_cut b _ hb ( List.take_prefix _ _) hne)]
        rfl

theorem decode_eq_ok_iff {l : List α} {bs : List β} :
    F.decode l = bs.map .ok ↔
      (∀ b ∈ bs, F.dom b) ∧ ∃ tail, l = F.encAll bs ++ tail ∧ F.head tail = .stop := by
  constructor
  · intro h
    induction bs generalizing l with
    | nil =>
      refine ⟨by simp, l, by simp, ?_⟩
      cases hh : F.head l with
      | stop => rfl
      | frame b rest => simp [Decoder.decode_frame hh] at h
      | bad e => simp [Decoder.decode_bad hh] at h
    | cons b bs ih =>
      cases hh : F.head l with
      | stop => simp [Decoder.decode_stop hh] at h
      | bad e => simp [Decoder.decode_bad hh] at h
      | frame c rest =>
        simp only [Decoder.decode_frame hh, List.map_cons, List.cons.injEq, Except.ok.injEq] at h
        obtain ⟨rfl, h⟩ := h
        obtain ⟨hdom, tail, rfl, hstop⟩ := ih h
        obtain ⟨rfl, hc⟩ := F.head_sound _ _ _ hh
        refine ⟨?_, tail, by simp, hstop⟩
        rintro d (_ | ⟨_, hd⟩)
        · exact hc
        · exact hdom d hd
  · rintro ⟨hdom, tail, rfl, hstop⟩
    rw [decode_encAll_append hdom, Decoder.decode_stop hstop, List.append_nil]

theorem exists_encAll_append (F : Framing α β ε) (l : List α) :
    ∃ bs tail, l = F.encAll bs ++ tail ∧ (∀ b ∈ bs, F.dom b) ∧
      (F.head tail = .stop ∨ ∃ e, F.head tail = .bad e) := by
  induction hn : l.length using Nat.strongRecOn generalizing l with
  | _ n ih =>
    cases hh : F.head l with
    | stop => exact ⟨[], l, by simp, by simp, Or.inl hh⟩
    | bad e => exact ⟨[], l, by simp, by simp, Or.inr ⟨e, hh⟩⟩
    | frame b rest =>
      have hlt := F.shrinks _ _ _ hh
      obtain ⟨bs, tail, hrest, hdom, hend⟩ := ih rest.length (by omega) rest rfl
      obtain ⟨hl, hb⟩ := F.head_sound _ _ _ hh
      refine ⟨b :: bs, tail, by rw [hl, hrest]; simp, ?_, hend⟩
      rintro c (_ | ⟨_, hc⟩)
      · exact hb
      · exact hdom c hc

theorem frames_prefix (F : Framing α β ε) {l l' : List α} (h : l <+: l') :
    (F.decode l).filterMap Except.toOption <+: (F.decode l').filterMap Except.toOption := by
  obtain ⟨more, rfl⟩ := h
  obtain ⟨bs, tail, rfl, hdom, hend⟩ := F.exists_encAll_append l
  have hframes : ∀ rs : List (Except ε β),
      (bs.map Except.ok ++ rs).filterMap Except.toOption = bs ++ rs.filterMap Except.toOption := by
    intro rs
    rw [List.filterMap_append, List.filterMap_map]
    exact congrArg (· ++ _) List.filterMap_some
  have htail : (F.decode tail).filterMap Except.toOption = [] := by
    rcases hend with hstop | ⟨e, hbad⟩
    · rw [Decoder.decode_stop hstop]
      rfl
    · rw [Decoder.decode_bad hbad]
      rfl
  rw [List.append_assoc, decode_encAll_append hdom, decode_encAll_append hdom, hframes, hframes, htail, List.append_nil]
  exact List.prefix_append _ _

end Framing

end Lib
