import Mathlib.Data.List.Basic

/-! # Trails

States that carry a list of what happened so far, of which only some entries matter: `f` picks these. -/

namespace Trail

variable {σ ε β : Type} (trace : σ → List ε) (f : ε → Option β)

/-- What happened between `s` and `t`. -/
def since (s t : σ) : List ε := (trace t).drop (trace s).length

/-- From `s` to `t` the trail only grew, by entries of which `f` picks `bs`. -/
def Adds (s t : σ) (bs : List β) : Prop := ∃ seg, trace t = trace s ++ seg ∧ seg.filterMap f = bs

variable {trace f} {s t u : σ} {e : ε} {b : β} {bs bs' : List β}

theorem adds_of_eq (h : trace t = trace s) : Adds trace f s t [] := ⟨[], by rw [h, List.append_nil], rfl⟩

theorem Adds.refl (s : σ) : Adds trace f s s [] := adds_of_eq rfl

theorem adds_picked (h : trace t = trace s ++ [e]) (he : f e = some b) : Adds trace f s t [b] :=
  ⟨[e], h, by rw [List.filterMap_cons_some he, List.filterMap_nil]⟩

theorem adds_skipped (h : trace t = trace s ++ [e]) (he : f e = none) : Adds trace f s t [] :=
  ⟨[e], h, by rw [List.filterMap_cons_none he, List.filterMap_nil]⟩

theorem Adds.trans (h : Adds trace f s t bs) (h' : Adds trace f t u bs') : Adds trace f s u (bs ++ bs') := by
  obtain ⟨seg, htrace, rfl⟩ := h
  obtain ⟨seg', htrace', rfl⟩ := h'
  exact ⟨seg ++ seg', by rw [htrace', htrace, List.append_assoc], List.filterMap_append ..⟩

theorem Adds.quiet (h : Adds trace f s t bs) (h' : Adds trace f t u []) : Adds trace f s u bs := List.append_nil bs ▸ h.trans h'

theorem Adds.since (h : Adds trace f s t bs) : (since trace s t).filterMap f = bs := by
  obtain ⟨seg, htrace, rfl⟩ := h
  rw [Trail.since, htrace, List.drop_left]

theorem Adds.mem (h : Adds trace f s t bs) (he : e ∈ Trail.since trace s t) (hf : f e = some b) : b ∈ bs := by
  rw [← h.since, List.mem_filterMap]
  exact ⟨e, he, hf⟩

theorem Adds.exists_mem (h : Adds trace f s t bs) (hb : b ∈ bs) : ∃ e ∈ Trail.since trace s t, f e = some b := by
  rwa [← h.since, List.mem_filterMap] at hb

/-- The first entry that `f` picks is the first that was added. -/
theorem Adds.findSome? (h : Adds trace f s t bs) : (Trail.since trace s t).findSome? f = bs.head? := by
  rw [← h.since, List.head?_filterMap]

end Trail
