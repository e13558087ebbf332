/-!
# Sessions

Somebody makes one request after another; each is answered and may change the state.  Two services
whose states correspond, and stay in correspondence, give the same answers in every session.
-/

namespace Mips.Session

variable {ρ α σ τ : Type}

def answers (serve : σ → ρ → α × σ) (s : σ) : List ρ → List α
  | [] => []
  | r :: rs => (serve s r).1 :: answers serve (serve s r).2 rs

def final (serve : σ → ρ → α × σ) (s : σ) (rs : List ρ) : σ := rs.foldl (fun s r => (serve s r).2) s

theorem answers_eq_of_related {f : σ → ρ → α × σ} {g : τ → ρ → α × τ} {Related : σ → τ → Prop}
    (hserve : ∀ s t r, Related s t → (f s r).1 = (g t r).1 ∧ Related (f s r).2 (g t r).2)
    {s : σ} {t : τ} (hrelated : Related s t) (rs : List ρ) :
    answers f s rs = answers g t rs ∧ Related (final f s rs) (final g t rs) := by
  induction rs generalizing s t with
  | nil => exact ⟨rfl, hrelated⟩
  | cons r rs ih =>
    obtain ⟨hanswer, hnext⟩ := hserve s t r hrelated
    obtain ⟨hanswers, hfinal⟩ := ih hnext
    refine ⟨?_, hfinal⟩
    rw [answers, answers, hanswer, hanswers]

end Mips.Session
