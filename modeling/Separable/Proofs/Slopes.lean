import Separable.Proofs.Evaluation

/-!
# Adding up gradients

The gradient of a term is added to the accumulator of a worker argument by argument: as it is where
the variable is plain, and pulled back by the reparameterization where it has one. A
reparameterization is asked to add to what the accumulator holds (`Reparam.AdditiveAt`), and then
the accumulators and their sum can be read entry by entry, as sums over the terms.

The workers' shares do not matter for this, because every entry of the gradient is a sum over all
terms that was taken piece by piece.

## Main results

* `getD_addSlopes`: an entry of the accumulator after the gradient of a term was added.
* `steady_derivativeTask`: the derivatives of a term do not depend on the worker.
* `getD_accumulator`: a worker adds up the shares of its terms.
* `getD_addAccumulators`: an entry of the gradient is the sum over all accumulators.
-/

namespace Separable

open Scalar

variable {α : Type} [Backend α]

/-- Whether pulling gradients back at `t` adds to the solver gradient something that does not depend
on what it holds, or fails whatever it holds. -/
def Reparam.AdditiveAt (c : Reparam α) (t : List α) : Prop :=
  ∀ g : List α, (g.length : Int) = c.userDimension → ∃ delta outcome,
    delta.length = c.solverDimension ∧ ∀ total, total.length = c.solverDimension →
      (c.pullBack t g total).2 = outcome ∧
        (outcome = .ok () → (c.pullBack t g total).1 = total.zipWith (· + ·) delta)

namespace Variable

/-- Whether gradients can be added up for this variable at the state `x`. -/
def Additive (x : List α) (v : Variable α) : Prop :=
  ∀ c, v.reparam = some c → c.AdditiveAt (v.part x)

/-- A gradient of the variable in user space as a gradient in solver space. -/
def pulled (x : List α) (v : Variable α) (g : List α) : List α :=
  match v.reparam with
  | none => g
  | some c => (c.pullBack (v.part x) g (zeros v.solverDimension)).1

/-- What a gradient of the variable contributes to entry `k` of the state's gradient. -/
def share (x : List α) (k : Nat) (v : Variable α) (g : List α) : α :=
  if v.offset ≤ k then (v.pulled x g).getD (k - v.offset) 0 else 0

end Variable

/-! ## One term -/

/-- Whether some gradients belong to registered variables and have their lengths. -/
def Registry.Slopes (r : Registry α) (slopes : List (Variable α × List α)) : Prop :=
  ∀ v g, (v, g) ∈ slopes → v ∈ r.vars ∧ g.length = v.userDimension

omit [Backend α] in
theorem Registry.Slopes.head {r : Registry α} {v : Variable α} {g : List α}
    {rest : List (Variable α × List α)} (h : r.Slopes ((v, g) :: rest)) :
    v ∈ r.vars ∧ g.length = v.userDimension :=
  h v g (by simp)

omit [Backend α] in
theorem Registry.Slopes.tail {r : Registry α} {slope : Variable α × List α}
    {rest : List (Variable α × List α)} (h : r.Slopes (slope :: rest)) : r.Slopes rest :=
  fun v g hmem => h v g (List.mem_cons_of_mem slope hmem)

section Slopes

variable {r : Registry α} {x : List α} {slopes : List (Variable α × List α)}

theorem Registry.slopes_of_fits {hessianEnabled : Bool} {b : Bound α} (m : Multipliers α)
    (withHessian : Bool) (hb : b.Fits r hessianEnabled) : r.Slopes (b.slopes m r withHessian) := by
  intro v g hmem
  exact ⟨hb.vars v (List.of_mem_zip hmem).1, Bound.length_of_mem_slopes hmem⟩

/-- What pulling a gradient back does to an accumulator of the right length. -/
theorem Registry.Sound.pullBack (hr : r.Sound) {v : Variable α} (hv : v ∈ r.vars)
    (hadditive : v.Additive x) {c : Reparam α} (hc : v.reparam = some c) {g : List α}
    (hg : g.length = v.userDimension) :
    ∃ delta outcome, delta.length = v.solverDimension ∧
      ∀ total : List α, total.length = r.scalars →
        (c.pullBack (v.part x) g (v.part total)).2 = outcome ∧
          (outcome = .ok () → (c.pullBack (v.part x) g (v.part total)).1 =
            (v.part total).zipWith (· + ·) delta) := by
  obtain ⟨huser, hsolver⟩ := (hr.fits v hv).reparam c hc
  obtain ⟨delta, outcome, hdelta, hpull⟩ := hadditive c hc g (by rw [hg, huser])
  refine ⟨delta, outcome, hdelta.trans hsolver, fun total htotal => hpull (v.part total) ?_⟩
  rw [Variable.length_part (htotal.symm ▸ hr.stop_le hv), hsolver]

/-- Whether a gradient can be added does not depend on what was added before. -/
theorem addSlopes_outcome (hr : r.Sound) (hadditive : ∀ slope ∈ slopes, slope.1.Additive x)
    (hslopes : r.Slopes slopes) {total other : List α} (htotal : total.length = r.scalars)
    (hother : other.length = r.scalars) :
    (addSlopes x slopes total).2 = (addSlopes x slopes other).2 := by
  induction slopes generalizing total other with
  | nil => rfl
  | cons slope rest ih =>
      obtain ⟨v, g⟩ := slope
      obtain ⟨hv, hg⟩ := hslopes.head
      obtain ⟨hhead, hrest⟩ := List.forall_mem_cons.1 hadditive
      cases hc : v.reparam with
      | none =>
          simp only [addSlopes, hc]
          exact ih hrest hslopes.tail (by simpa using htotal) (by simpa using hother)
      | some c =>
          obtain ⟨delta, outcome, _, hpull⟩ := hr.pullBack hv hhead hc hg
          have hfirst := (hpull total htotal).1
          have hsecond := (hpull other hother).1
          rcases htaken : c.pullBack (v.part x) g (v.part total) with ⟨part, result⟩
          rcases htaken' : c.pullBack (v.part x) g (v.part other) with ⟨part', result'⟩
          rw [htaken] at hfirst
          rw [htaken'] at hsecond
          dsimp only at hfirst hsecond
          subst hfirst hsecond
          simp only [addSlopes, hc, htaken, htaken']
          cases result' with
          | error fault => rfl
          | ok done =>
              exact ih hrest hslopes.tail (by simpa using htotal) (by simpa using hother)

variable [ExactAddition α]

omit [ExactAddition α] in
theorem Variable.getD_part (v : Variable α) (total : List α) {k : Nat}
    (hk : k < v.solverDimension) : (v.part total).getD k 0 = total.getD (v.offset + k) 0 := by
  rw [List.getD_eq_getElem?_getD, Variable.getElem?_part, if_pos hk, List.getD_eq_getElem?_getD]

/-- Adding zeros on the left does nothing. -/
theorem zipWith_zeros {n : Nat} {xs : List α} (h : xs.length = n) :
    (zeros n).zipWith (· + ·) xs = xs := by
  refine ext_getD (by simp [h]) fun k _ => ?_
  rw [getD_zipWith_add (by simp [h]), getD_zeros, ExactAddition.zero_add]

/-- An entry of the accumulator after one gradient was pulled back and added. -/
theorem Registry.Sound.getD_pullBack (hr : r.Sound) {v : Variable α} (hv : v ∈ r.vars)
    (hadditive : v.Additive x) {c : Reparam α} (hc : v.reparam = some c) {g : List α}
    (hg : g.length = v.userDimension) {total : List α} (htotal : total.length = r.scalars)
    (hok : (c.pullBack (v.part x) g (v.part total)).2 = .ok ()) (k : Nat) :
    (overwrite v.offset (c.pullBack (v.part x) g (v.part total)).1 total).getD k 0 =
      total.getD k 0 + v.share x k g := by
  obtain ⟨huser, hsolver⟩ := (hr.fits v hv).reparam c hc
  obtain ⟨delta, outcome, hdelta, hpull⟩ := hadditive c hc g (by rw [hg, huser])
  rw [hsolver] at hdelta hpull
  have hstop : v.offset + v.solverDimension ≤ total.length := htotal.symm ▸ hr.stop_le hv
  have hpart : (v.part total).length = v.solverDimension := Variable.length_part hstop
  obtain ⟨houtcome, hadded⟩ := hpull (v.part total) hpart
  obtain ⟨_, hzeros⟩ := hpull (zeros v.solverDimension) (length_zeros _)
  have hpulled : v.pulled x g = delta := by
    rw [Variable.pulled, hc]
    dsimp only
    rw [hzeros (houtcome.symm.trans hok), zipWith_zeros hdelta]
  have hlength : (v.part total).length = delta.length := hpart.trans hdelta.symm
  rw [hadded (houtcome.symm.trans hok), Variable.share, hpulled,
    getD_overwrite (by simpa [hlength, hdelta] using hstop)]
  simp only [List.length_zipWith, hlength, Nat.min_self, hdelta]
  by_cases hstart : v.offset ≤ k
  · by_cases hinside : k < v.offset + v.solverDimension
    · have hplace : v.offset + (k - v.offset) = k := by omega
      rw [if_pos ⟨hstart, hinside⟩, if_pos hstart, getD_zipWith_add hlength,
        Variable.getD_part v total (by omega), hplace]
    · have hbehind : delta.length ≤ k - v.offset := by omega
      rw [if_neg (by omega), if_pos hstart, List.getD_eq_getElem?_getD (l := delta),
        List.getElem?_eq_none hbehind, Option.getD_none, ExactAddition.add_zero]
  · rw [if_neg (by omega), if_neg hstart, ExactAddition.add_zero]

/-- An entry of the accumulator after the gradient of a term was added. -/
theorem getD_addSlopes (hr : r.Sound) (hadditive : ∀ slope ∈ slopes, slope.1.Additive x)
    (hslopes : r.Slopes slopes) {total : List α} (htotal : total.length = r.scalars)
    (hok : (addSlopes x slopes total).2 = .ok ()) (k : Nat) :
    (addSlopes x slopes total).1.getD k 0 =
      total.getD k 0 + sum (slopes.map fun (v, g) => v.share x k g) := by
  induction slopes generalizing total with
  | nil => exact (ExactAddition.add_zero _).symm
  | cons slope rest ih =>
      obtain ⟨v, g⟩ := slope
      obtain ⟨hv, hg⟩ := hslopes.head
      obtain ⟨hhead, hrest⟩ := List.forall_mem_cons.1 hadditive
      rw [List.map_cons, sum_cons, ← ExactAddition.add_assoc]
      cases hc : v.reparam with
      | none =>
          have hstop : v.offset + g.length ≤ total.length := by
            rw [hg, ← (hr.fits v hv).plain hc, htotal]
            exact hr.stop_le hv
          simp only [addSlopes, hc] at hok ⊢
          rw [ih hrest hslopes.tail (by simpa using htotal) hok, getD_addAt hstop]
          simp [Variable.share, Variable.pulled, hc]
      | some c =>
          have hentry := hr.getD_pullBack hv hhead hc hg htotal
          rcases htaken : c.pullBack (v.part x) g (v.part total) with ⟨part, fault | done⟩
          · simp [addSlopes, hc, htaken] at hok
          · rw [htaken] at hentry
            simp only [addSlopes, hc, htaken] at hok ⊢
            rw [ih hrest hslopes.tail (by simpa using htotal) hok, hentry rfl]

end Slopes

/-! ## All terms -/

namespace Bound

/-- The result of evaluating the derivatives of a term at the state `x`. -/
def outcome (m : Multipliers α) (r : Registry α) (x : List α) (withHessian : Bool) (b : Bound α) :
    Except Fault α :=
  (b.derived m r withHessian).2.bind fun value =>
    (addSlopes x (b.slopes m r withHessian) (zeros r.scalars)).2.map fun () => value

/-- A term after its derivatives were evaluated. -/
def refilled (m : Multipliers α) (r : Registry α) (withHessian : Bool) (b : Bound α) : Bound α :=
  { b with blocks := (b.derived m r withHessian).1.2 }

/-- What a term contributes to entry `k` of the gradient. -/
def share (m : Multipliers α) (r : Registry α) (x : List α) (withHessian : Bool) (k : Nat)
    (b : Bound α) : α :=
  sum ((b.slopes m r withHessian).map fun (v, g) => v.share x k g)

theorem additive_slopes {x : List α} {b : Bound α} (h : ∀ v ∈ b.vars, v.Additive x)
    (m : Multipliers α) (r : Registry α) (withHessian : Bool) :
    ∀ slope ∈ b.slopes m r withHessian, slope.1.Additive x := by
  rintro ⟨v, g⟩ hmem
  exact h v (List.of_mem_zip hmem).1

end Bound

section Terms

variable {terms : List (Bound α)} {r : Registry α} {x : List α} {hessianEnabled : Bool}
  {withHessian : Bool}

/-- The derivatives of a term do not depend on the worker that evaluates it. -/
theorem steady_derivativeTask (m : Multipliers α) (hr : r.Sound)
    (hterms : ∀ b ∈ terms, b.Fits r hessianEnabled)
    (hadditive : ∀ b ∈ terms, ∀ v ∈ b.vars, v.Additive x)
    (henabled : withHessian = true → hessianEnabled = true) :
    Crew.Steady (derivativeTask m r x withHessian) (Scratch.Fits terms r)
      (Bound.outcome m r x withHessian) (Bound.refilled m r withHessian) terms := by
  refine ⟨fun s hs b hb => ?_, fun s hs b hb => ?_, fun s hs b hb => ?_⟩
  · have houtcome := addSlopes_outcome hr (Bound.additive_slopes (hadditive b hb) m r withHessian)
      (r.slopes_of_fits m withHessian (hterms b hb)) hs.accumulator (length_zeros r.scalars)
    rw [derivativeTask_eq m x hs hb (hterms b hb) henabled, Bound.outcome]
    cases (b.derived m r withHessian).2 with
    | error fault => rfl
    | ok value => simp only [Except.bind, houtcome]
  · rw [derivativeTask_eq m x hs hb (hterms b hb) henabled]
    cases (b.derived m r withHessian).2 <;> rfl
  · exact hs.derivativeTask m r x withHessian b

/-- A worker that evaluates some terms adds up their shares of every entry. -/
theorem getD_accumulator [ExactAddition α] (m : Multipliers α) (hr : r.Sound)
    (hterms : ∀ b ∈ terms, b.Fits r hessianEnabled)
    (hadditive : ∀ b ∈ terms, ∀ v ∈ b.vars, v.Additive x)
    (henabled : withHessian = true → hessianEnabled = true) {piece : List (Bound α)}
    (hpiece : ∀ b ∈ piece, b ∈ terms)
    (hok : ∀ b ∈ piece, ∃ value, b.outcome m r x withHessian = .ok value) {s : Scratch α}
    (hs : s.Fits terms r) (k : Nat) :
    (piece.foldl (fun s b => (derivativeTask m r x withHessian s b).1.1) s).accumulator.getD k 0 =
      s.accumulator.getD k 0 + sum (piece.map (Bound.share m r x withHessian k)) := by
  induction piece generalizing s with
  | nil => exact (ExactAddition.add_zero _).symm
  | cons b rest ih =>
      have hb : b ∈ terms := hpiece b (by simp)
      have hslopes := r.slopes_of_fits m withHessian (hterms b hb)
      have hsteep := Bound.additive_slopes (hadditive b hb) m r withHessian
      obtain ⟨value, hvalue⟩ := hok b (by simp)
      have hfits := (steady_derivativeTask m hr hterms hadditive henabled).fits_after s hs b hb
      have hstep : (derivativeTask m r x withHessian s b).1.1.accumulator.getD k 0 =
          s.accumulator.getD k 0 + b.share m r x withHessian k := by
        rw [derivativeTask_eq m x hs hb (hterms b hb) henabled]
        rw [Bound.outcome] at hvalue
        cases hderived : (b.derived m r withHessian).2 with
        | error fault =>
            rw [hderived] at hvalue
            cases hvalue
        | ok value' =>
            rw [hderived] at hvalue
            cases hadded : (addSlopes x (b.slopes m r withHessian) (zeros r.scalars)).2 with
            | error fault =>
                simp only [Except.bind, hadded] at hvalue
                cases hvalue
            | ok done =>
                have hsame := addSlopes_outcome hr hsteep hslopes hs.accumulator
                  (length_zeros r.scalars)
                exact getD_addSlopes hr hsteep hslopes hs.accumulator (hsame.trans hadded) k
      rw [List.foldl_cons, ih (fun d hd => hpiece d (List.mem_cons_of_mem b hd))
        (fun d hd => hok d (List.mem_cons_of_mem b hd)) hfits, hstep, List.map_cons, sum_cons,
        ExactAddition.add_assoc]

end Terms

/-! ## Adding up accumulators -/

/-- Accumulators can be added to a gradient of their length, in elements of a kind that takes
sums. -/
theorem addAccumulators_of_length {kind : ElementKind} (hkind : kind.refusingSums? = none) {n : Nat}
    {gradient : List α} {totals : List (List α)} (hgradient : gradient.length = n)
    (htotals : ∀ total ∈ totals, total.length = n) :
    (addAccumulators kind gradient totals).2 = .ok () ∧
      (addAccumulators kind gradient totals).1.length = n := by
  induction totals generalizing gradient with
  | nil => exact ⟨rfl, hgradient⟩
  | cons total rest ih =>
      have htotal : total.length = gradient.length := by
        rw [hgradient]
        exact htotals total (by simp)
      simp only [addAccumulators, addAccumulator, hkind, htotal, if_true]
      exact ih (by simp [htotal, hgradient]) fun other hother =>
        htotals other (List.mem_cons_of_mem total hother)

/-- Elements of a kind that takes no sums refuse the first accumulator. -/
theorem addAccumulators_of_refusing {kind : ElementKind} {name : String}
    (hkind : kind.refusingSums? = some name) (gradient : List α) {totals : List (List α)}
    (htotals : totals ≠ []) :
    addAccumulators kind gradient totals = (gradient, .error (.unsafeSum name)) := by
  obtain ⟨total, rest, rfl⟩ := List.exists_cons_of_ne_nil htotals
  simp only [addAccumulators, addAccumulator, hkind]

theorem getD_addAccumulators [ExactAddition α] {n : Nat} {gradient : List α}
    {totals : List (List α)} (hgradient : gradient.length = n)
    (htotals : ∀ total ∈ totals, total.length = n) (k : Nat) :
    (addAccumulators .double gradient totals).1.getD k 0 =
      gradient.getD k 0 + sum (totals.map (·.getD k 0)) := by
  induction totals generalizing gradient with
  | nil => exact (ExactAddition.add_zero _).symm
  | cons total rest ih =>
      have htotal : total.length = gradient.length := by
        rw [hgradient]
        exact htotals total (by simp)
      simp only [addAccumulators, addAccumulator, ElementKind.refusingSums?,
        ElementKind.round_double, htotal, if_true]
      rw [ih (by simp [htotal, hgradient]) fun other hother =>
          htotals other (List.mem_cons_of_mem total hother),
        getD_zipWith_add htotal.symm, List.map_cons, sum_cons, ExactAddition.add_assoc]

end Separable
