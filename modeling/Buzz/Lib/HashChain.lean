import Mathlib.Data.List.Forall2
import Mathlib.Data.List.Induction
import Mathlib.Data.List.Nodup

/-!
# Hash chains

A chain is a list of records each of which names the digest of the record before it. Nothing is
assumed of the digest function here: what a chain promises follows from injectivity of the digest
*on the records at hand*, which is how collision freeness is used.
-/

namespace Buzz

open List

variable {ρ δ : Type*} (link : ρ → Option δ) (digest : ρ → δ)

/-- The first record names `prev`, every other one the digest of its predecessor. -/
def LinkedFrom : Option δ → List ρ → Prop
  | _, [] => True
  | prev, r :: rs => link r = prev ∧ LinkedFrom (some (digest r)) rs

/-- What the next record of a chain has to name. -/
def chainHead (prev : Option δ) (rs : List ρ) : Option δ := (rs.getLast?.map digest).or prev

@[simp] theorem chainHead_nil (prev : Option δ) : chainHead digest prev ([] : List ρ) = prev := rfl

@[simp] theorem chainHead_concat (prev : Option δ) (rs : List ρ) (r : ρ) :
    chainHead digest prev (rs ++ [r]) = some (digest r) := by
  simp [chainHead]

theorem chainHead_cons (prev : Option δ) (r : ρ) (rs : List ρ) :
    chainHead digest prev (r :: rs) = chainHead digest (some (digest r)) rs := by
  cases h : rs.getLast? <;> simp [chainHead, getLast?_cons, h]

variable {link digest}

variable {prev : Option δ} {rs : List ρ}

theorem linkedFrom_append {ts : List ρ} :
    LinkedFrom link digest prev (rs ++ ts) ↔
      LinkedFrom link digest prev rs ∧ LinkedFrom link digest (chainHead digest prev rs) ts := by
  induction rs generalizing prev with
  | nil => simp [LinkedFrom]
  | cons r rs ih => rw [cons_append, LinkedFrom, LinkedFrom, ih, chainHead_cons, and_assoc]

theorem linkedFrom_concat {r : ρ} :
    LinkedFrom link digest prev (rs ++ [r]) ↔
      LinkedFrom link digest prev rs ∧ link r = chainHead digest prev rs := by
  simp [linkedFrom_append, LinkedFrom]

theorem LinkedFrom.link_zero (h : LinkedFrom link digest prev rs) (h0 : 0 < rs.length) :
    link rs[0] = prev := by
  cases rs with
  | nil => simp at h0
  | cons r rs => exact h.1

theorem LinkedFrom.link_succ (h : LinkedFrom link digest prev rs) (i : ℕ) (hi : i + 1 < rs.length) :
    link rs[i + 1] = some (digest rs[i]) := by
  induction i generalizing prev rs with
  | zero =>
    match rs, h with
    | r :: s :: rs, h => exact h.2.1
  | succ i ih =>
    match rs, h with
    | r :: rs, h => exact ih h.2 (by simpa using hi)

/-- Chains of one length that end in one digest agree, record by record, in whatever records of one
digest agree in, provided that these name the same digest when both name one of a record. -/
theorem LinkedFrom.forall₂_of_last {R : ρ → ρ → Prop} {prev' : Option δ} {ts : List ρ}
    (hrs : LinkedFrom link digest prev rs) (hts : LinkedFrom link digest prev' ts)
    (hlen : rs.length = ts.length) (hlast : rs.getLast?.map digest = ts.getLast?.map digest)
    (hinj : ∀ a ∈ rs, ∀ b ∈ ts, digest a = digest b →
      R a b ∧ ∀ d ∈ rs.map digest, ∀ e ∈ ts.map digest, link a = some d → link b = some e → d = e) :
    List.Forall₂ R rs ts := by
  induction rs using reverseRecOn generalizing ts with
  | nil =>
    rw [length_eq_zero_iff.mp hlen.symm]
    exact .nil
  | append_singleton rs r ih =>
    obtain ⟨ts, t, rfl⟩ : ∃ ts' t, ts = ts' ++ [t] := by
      rcases eq_nil_or_concat ts with rfl | ⟨ts', t, rfl⟩
      · simp at hlen
      · exact ⟨ts', t, by rw [concat_eq_append]⟩
    have hlen' : rs.length = ts.length := by simpa using hlen
    have hdigest : digest r = digest t := by simpa using hlast
    obtain ⟨hr, hlinks⟩ := hinj r (by simp) t (by simp) hdigest
    obtain ⟨hrs, hlinkr⟩ := linkedFrom_concat.mp hrs
    obtain ⟨hts, hlinkt⟩ := linkedFrom_concat.mp hts
    refine rel_append (ih hrs hts hlen' ?_ fun a ha b hb hab =>
      ((hinj a (mem_append_left _ ha) b (mem_append_left _ hb) hab).imp id fun h d hd e he =>
        h d (by simp at hd ⊢; exact .inl hd) e (by simp at he ⊢; exact .inl he))) (.cons hr .nil)
    cases hlr : rs.getLast? with
    | none =>
      rw [getLast?_eq_none_iff.mp hlr, length_nil] at hlen'
      rw [length_eq_zero_iff.mp hlen'.symm]
      rfl
    | some a =>
      cases hlt : ts.getLast? with
      | none =>
        rw [getLast?_eq_none_iff.mp hlt, length_nil] at hlen'
        rw [length_eq_zero_iff.mp hlen'] at hlr
        nomatch hlr
      | some b =>
        have ha : digest a ∈ (rs ++ [r]).map digest :=
          mem_map_of_mem (mem_append_left _ (mem_of_getLast? hlr))
        have hb : digest b ∈ (ts ++ [t]).map digest :=
          mem_map_of_mem (mem_append_left _ (mem_of_getLast? hlt))
        refine congrArg some (hlinks (digest a) ha (digest b) hb ?_ ?_)
        · rw [hlinkr, chainHead, hlr]
          rfl
        · rw [hlinkt, chainHead, hlt]
          rfl

/-- In a chain from nothing, records with one digest are one record: walking down from both, the
links agree until one of the two walks reaches the start. -/
theorem LinkedFrom.index_inj (h : LinkedFrom link digest none rs)
    (hinj : ∀ a ∈ rs, ∀ b ∈ rs, digest a = digest b → link a = link b) :
    ∀ (i j : ℕ) (hi : i < rs.length) (hj : j < rs.length), digest rs[i] = digest rs[j] → i = j := by
  intro i
  induction i with
  | zero =>
    intro j hi hj hd
    have hlink := hinj _ (getElem_mem hi) _ (getElem_mem hj) hd
    cases j with
    | zero => rfl
    | succ j => rw [h.link_zero hi, h.link_succ j hj] at hlink; simp at hlink
  | succ i ih =>
    intro j hi hj hd
    have hlink := hinj _ (getElem_mem hi) _ (getElem_mem hj) hd
    cases j with
    | zero => rw [h.link_zero hj, h.link_succ i hi] at hlink; simp at hlink
    | succ j =>
      rw [h.link_succ i hi, h.link_succ j hj, Option.some.injEq] at hlink
      rw [ih j (by omega) (by omega) hlink]

theorem LinkedFrom.nodup (h : LinkedFrom link digest none rs)
    (hinj : ∀ a ∈ rs, ∀ b ∈ rs, digest a = digest b → link a = link b) : (rs.map digest).Nodup := by
  refine nodup_iff_injective_get.mpr fun i j hij => ?_
  have hi : (i : ℕ) < rs.length := by simpa using i.isLt
  have hj : (j : ℕ) < rs.length := by simpa using j.isLt
  exact Fin.ext (h.index_inj hinj i j hi hj (by simpa using hij))

end Buzz
