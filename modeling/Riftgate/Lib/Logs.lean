import Mathlib.Data.List.Basic

/-!
# Logs that are only added to

Logs with names. What a name stood for is the front of what it stands for later. `view` may show less of a log than all
of it, and an empty log may go.
-/

namespace Lib

section

variable {φ κ α : Type} (key : φ → κ) (view : φ → List α)

def Kept (fs gs : List φ) : Prop := ∀ f ∈ fs, view f ≠ [] → ∃ g ∈ gs, key g = key f ∧ view f <+: view g

variable {key view}

theorem Kept.of_subset {fs gs : List φ} (h : fs ⊆ gs) : Kept key view fs gs :=
  fun f hf _ => ⟨f, h hf, rfl, List.prefix_rfl⟩

theorem Kept.refl (fs : List φ) : Kept key view fs fs := .of_subset (List.Subset.refl fs)

theorem Kept.trans {fs gs hs : List φ} (h : Kept key view fs gs) (h' : Kept key view gs hs) : Kept key view fs hs := by
  intro f hf hne
  obtain ⟨g, hg, hkey, hview⟩ := h f hf hne
  have hne' : view g ≠ [] := fun hnil => hne (List.prefix_nil.mp (hnil ▸ hview))
  obtain ⟨k, hk, hkey', hview'⟩ := h' g hg hne'
  exact ⟨k, hk, hkey'.trans hkey, hview.trans hview'⟩

/-- Each log changes on its own, or goes when nothing of it is shown. -/
theorem Kept.filterMap {step : φ → Option φ} {fs : List φ} (hstep : ∀ f ∈ fs, step f = none → view f = [])
    (hkept : ∀ f g, step f = some g → key g = key f ∧ view f <+: view g) : Kept key view fs (fs.filterMap step) := by
  intro f hf hne
  cases hs : step f with
  | none => exact absurd (hstep f hf hs) hne
  | some g => exact ⟨g, List.mem_filterMap.mpr ⟨f, hf, hs⟩, hkept f g hs⟩

end

end Lib
