import AppSupervisor.Proofs.Index.Loops
import Mathlib.Data.List.Nodup

namespace AppSupervisor.Index

variable {σ : Type} {index : σ → Index} {ready : σ → Nat → Prop} {visit : σ → Nat → σ}
  {P : σ → List Nat → Prop} {s : σ} {l : Link} {is js bs : List Nat} {key : Nat → Nat}

theorem visitFrom_induction {Q : σ → Prop} (kept : ∀ s i, Q s → Q (visit s i)) (n : Nat) (l : Link)
    (h : Q s) : Q (visitFrom index visit n l s) := by
  fun_induction visitFrom index visit n l s with
  | case1 => exact h
  | case2 => exact h
  | case3 n i s ih => exact ih (kept s i h)

theorem visitAll_induction {Q : σ → Prop} (kept : ∀ s i, Q s → Q (visit s i)) (h : Q s) :
    Q (visitAll index visit s) :=
  List.foldlRecOn _ _ h fun _ h _ _ => visitFrom_induction kept _ _ h

variable (step : ∀ s i rest, P s (i :: rest) →
    P (visit s i) rest ∧ (index s).Detaches (index (visit s i)) i)

include step

/-- What the visits of some slots leave: what is known, and the chains of the other slots. What is
known of a state, `P`, may mention the slots still ahead. -/
theorem foldl_visit_keeps (known : P s (is ++ js)) :
    P (is.foldl visit s) js ∧ ∀ b ks, (∀ k ∈ ks, k ∉ is) →
      (index s).Leads ((index s).head b) ks →
      (index (is.foldl visit s)).Leads ((index (is.foldl visit s)).head b) ks := by
  induction is generalizing s with
  | nil => exact ⟨known, fun _ _ _ h => h⟩
  | cons i rest ih =>
    obtain ⟨known', detaches⟩ := step s i (rest ++ js) known
    obtain ⟨last, keeps⟩ := ih known'
    refine ⟨last, fun b ks apart leads => ?_⟩
    have hi : i ∉ ks := fun hm => apart i hm (by simp)
    refine keeps b ks (fun k hk hm => apart k hk (List.mem_cons_of_mem i hm)) ?_
    rw [detaches.head_of_leads leads hi]
    exact detaches.leads leads hi

section

variable (able : ∀ s i rest, P s (i :: rest) → ready s i)

include able

theorem Leads.loops (h : (index s).Leads l is) (nodup : is.Nodup) (known : P s (is ++ js)) :
    Loops index ready visit l s is (is.foldl visit s) := by
  induction is generalizing s l with
  | nil =>
    cases h
    exact .stop
  | cons i rest ih =>
    cases h with
    | next inside tail =>
      obtain ⟨known', detaches⟩ := step s i (rest ++ js) known
      have hi := List.nodup_cons.mp nodup
      exact .next inside (able s i _ known) (ih (detaches.leads tail hi.1) hi.2 known')

theorem endsAll_of_leads {chains : Nat → List Nat} (known : P s (bs.flatMap chains))
    (nodup : (bs.flatMap chains).Nodup)
    (h : ∀ b ∈ bs, (index s).Leads ((index s).head b) (chains b)) :
    EndsAll index ready visit bs s ((bs.flatMap chains).foldl visit s) := by
  induction bs generalizing s with
  | nil => exact .nil
  | cons b bs ih =>
    rw [List.flatMap_cons] at known nodup ⊢
    obtain ⟨nodupHere, nodupLater, apart⟩ := List.nodup_append'.mp nodup
    have here := h b (by simp)
    obtain ⟨known', keeps⟩ := foldl_visit_keeps step known
    rw [List.foldl_append]
    refine .cons ⟨_, here.loops step able nodupHere known, nodupHere, here.length_le nodupHere⟩
      (ih known' nodupLater fun b' hb' => ?_)
    refine keeps b' (chains b') (fun k hk hm => apart hm ?_) (h b' (List.mem_cons_of_mem b hb'))
    exact List.mem_flatMap.mpr ⟨b', hb', hk⟩

theorem Holds.endsAll_foldl (h : (index s).Holds key is) (known : P s (index s).toList) :
    EndsAll index ready visit (List.range (index s).heads.size) s
      ((index s).toList.foldl visit s) :=
  endsAll_of_leads step able known (h.toList_perm.nodup_iff.mpr h.nodup) fun b _ => h.leads_chain b

end

theorem visitAll_eq_foldl (h : (index s).Holds key is) (known : P s (index s).toList) :
    visitAll index visit s = (index s).toList.foldl visit s := by
  have ends : EndsAll index (fun _ _ => True) visit _ s _ :=
    h.endsAll_foldl step (fun _ _ _ _ => trivial) known
  exact ends.visitAll_eq

theorem Holds.endsAll (able : ∀ s i rest, P s (i :: rest) → ready s i)
    (h : (index s).Holds key is) (known : P s (index s).toList) :
    EndsAll index ready visit (List.range (index s).heads.size) s (visitAll index visit s) := by
  rw [visitAll_eq_foldl step h known]
  exact h.endsAll_foldl step able known

theorem Holds.visitAll_keeps (h : (index s).Holds key is) (known : P s (index s).toList) :
    P (visitAll index visit s) [] := by
  rw [visitAll_eq_foldl step h known]
  exact (foldl_visit_keeps step ((List.append_nil _).symm ▸ known)).1

end AppSupervisor.Index
