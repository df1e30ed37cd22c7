import Frpc.Client.Custody

/-! # Sequence numbers

`send` numbers the calls with a 64-bit counter and files them in `pending` under these numbers
(`Numbered`). The numbers of the first `2 ^ 64` calls are distinct, so each of them is filed under a
free number and none is lost (`covered_of_reach`); after that the numbers repeat. -/

namespace Frpc.Client.Sequence

open Frpc.Codecs Frpc.Lib.Runs Frpc.Lib.Ledgers
open Frpc.Client.Machine Frpc.Client.Steps Frpc.Client.Custody

variable {V : Type} {env : Env V} {opt : ClientOption} {s s' : State V} {l : Label V}

/-- How the calls are numbered. -/
structure Numbered (s : State V) : Prop where
  counter : s.seq = .ofNat s.registered
  seq_lt : ∀ {d f q}, s.flights d = some f → f.seq = some q → ∃ j < s.registered, q = .ofNat j
  distinct : s.registered ≤ 2 ^ 64 → ∀ {d d' f f' q}, s.flights d = some f →
    s.flights d' = some f' → f.seq = some q → f'.seq = some q → d = d'
  pending_seq : ∀ {q d}, s.pending.lookup q = some d → ∃ f, s.flights d = some f ∧ f.seq = some q
  cell_zero : ∀ {d f}, s.flights d = some f → f.cell = 0

theorem ofNat_ne {j n : ℕ} (hj : j < n) (hn : n < 2 ^ 64) : UInt64.ofNat j ≠ .ofNat n := by
  intro h
  have := congrArg UInt64.toNat h
  rw [UInt64.toNat_ofNat', UInt64.toNat_ofNat', Nat.mod_eq_of_lt (by omega),
    Nat.mod_eq_of_lt hn] at this
  omega

theorem seq_of_made {d : CallId} {f : Flight V} (h : Made s l s' d f) :
    f.cell = 0 ∧ (f.seq = none ∨ (f.seq = some s.seq ∧ s'.registered = s.registered + 1)) := by
  obtain ⟨viaCall, ctx, p, m, args, reply, -, hctx, ⟨err, rfl⟩ | ⟨rfl, hreg⟩⟩ := h
  · exact ⟨rfl, Or.inl rfl⟩
  · refine ⟨?_, Or.inr ⟨rfl, hreg⟩⟩
    cases viaCall <;> simp [Flight.register, newFlight, Context.ofCall, hctx]

theorem registered_le (h : Effect env opt s l s') : s.registered ≤ s'.registered := by
  rcases counter_cases h with ⟨-, h⟩ | ⟨-, h⟩ <;> omega

theorem Numbered.init : Numbered (init : State V) where
  counter := rfl
  seq_lt h := by cases h
  distinct _ _ _ _ _ _ h := by cases h
  pending_seq h := by simp [Machine.init] at h
  cell_zero h := by cases h

theorem Numbered.step (hn : Numbered s) (h : Effect env opt s l s') : Numbered s' where
  counter := by
    rcases counter_cases h with ⟨hs, hr⟩ | ⟨hs, hr⟩
    · rw [hs, hr, hn.counter]
    · rw [hs, hr, hn.counter, UInt64.ofNat_add]
      rfl
  seq_lt := by
    intro d f' q hf' hq
    rcases flight_cases h hf' with ⟨f, hf, hev⟩ | ⟨-, hmade⟩
    · obtain ⟨j, hj, rfl⟩ := hn.seq_lt hf (hev.seq ▸ hq)
      exact ⟨j, by have := registered_le h; omega, rfl⟩
    · rcases (seq_of_made hmade).2 with hs | ⟨hs, hreg⟩
      · rw [hs] at hq
        cases hq
      · rw [hs] at hq
        cases hq
        exact ⟨s.registered, by omega, hn.counter⟩
  distinct := by
    intro hle d d' f f' q hf hf' hq hq'
    have hmono := registered_le h
    -- an old number is below the counter, a new one is the counter
    have hclash : ∀ {d d' f f'}, s.flights d = some f → f.seq = some q → Made s l s' d' f' →
        f'.seq = some q → False := by
      intro d d' f f' hf hq hmade hq'
      obtain ⟨j, hj, rfl⟩ := hn.seq_lt hf hq
      rcases (seq_of_made hmade).2 with hs | ⟨hs, hreg⟩
      · rw [hs] at hq'
        cases hq'
      · rw [hs, hn.counter, Option.some.injEq] at hq'
        exact ofNat_ne hj (by omega) hq'.symm
    rcases flight_cases h hf with ⟨g, hg, hev⟩ | ⟨-, hmade⟩ <;>
      rcases flight_cases h hf' with ⟨g', hg', hev'⟩ | ⟨-, hmade'⟩
    · exact hn.distinct (by omega) hg hg' (hev.seq ▸ hq) (hev'.seq ▸ hq')
    · exact (hclash hg (hev.seq ▸ hq) hmade' hq').elim
    · exact (hclash hg' (hev'.seq ▸ hq') hmade hq).elim
    · obtain ⟨_, _, _, _, _, _, hl, -⟩ := hmade
      obtain ⟨_, _, _, _, _, _, hl', -⟩ := hmade'
      rw [hl] at hl'
      cases hl'
      rfl
  pending_seq := by
    intro q d hq
    rcases pending_cases h hq with hq | ⟨-, hf⟩
    · obtain ⟨f, hf, hseq⟩ := hn.pending_seq hq
      obtain ⟨f', hf', hev⟩ := flight_step h hf
      exact ⟨f', hf', hev.seq.trans hseq⟩
    · exact hf
  cell_zero := by
    intro d f' hf'
    rcases flight_cases h hf' with ⟨f, hf, hev⟩ | ⟨-, hmade⟩
    · exact hev.cell.trans (hn.cell_zero hf)
    · exact (seq_of_made hmade).1

theorem numbered_of_reach {ok : State V → Label V → Prop} (h : Reach (step env opt) ok init s) :
    Numbered s :=
  h.invariant .init fun _ hn _ hs => hn.step (effect_of_step hs)

theorem Numbered.seq_free (hn : Numbered s) (hlt : s.registered < 2 ^ 64) :
    s.pending.lookup s.seq = none := by
  by_contra hne
  obtain ⟨d, hd⟩ := Option.ne_none_iff_exists'.mp hne
  obtain ⟨f, hf, hq⟩ := hn.pending_seq hd
  obtain ⟨j, hj, hjq⟩ := hn.seq_lt hf hq
  exact ofNat_ne hj hlt (hjq.symm.trans hn.counter)

/-- **No call is lost.** As long as at most `2 ^ 64` calls were registered, every call is in
`pending`, in the hands of a goroutine, or completed. -/
theorem covered_of_reach (h : Reach (step env opt) Any init s) (hle : s.registered ≤ 2 ^ 64) :
    (ledger s).Covered := by
  refine h.invariant (P := fun s => s.registered ≤ 2 ^ 64 → (ledger s).Covered) ?_ ?_ hle
  · intro _ d hd
    cases hd
  · intro t u l hr hcov _ hs hu
    have heff := effect_of_step hs
    obtain ⟨e, he, -, hfree⟩ := ledger_step (custody_of_reach hr) heff
    obtain ⟨hen, happ⟩ := Ledger.step_eq_some.mp he
    rw [← happ]
    refine (hcov (by have := registered_le heff; omega)).apply hen (hfree fun hlt => ?_)
    exact (numbered_of_reach hr).seq_free (by omega)

end Frpc.Client.Sequence
