import Mathlib.Analysis.Convex.Function
import Mathlib.Topology.Algebra.Field
import Mathlib.Topology.Order.Lattice
import Separable.Proofs.Multipliers
import Separable.Term.Elementary

/-!
# The closed form of a penalty

Over the real numbers the penalty of a constraint needs no case split: it is
`(max 0 (dual + mu t)² - dual²) / (2 mu)`, and its slope is `max 0 (dual + mu t)`.

What is to be known of it follows from one more form. Every multiplier `l` that is not negative
gives an affine function of the value, `line mu dual l`, which is paid for by the distance of `l`
from `dual`. The penalty is the largest of them, attained where `l` is the slope. So its graph lies
above its tangents, it is convex, and it grows with whatever its lines grow with, which are the
value and the penalty parameter.

A penalty is a term, and may be under a penalty itself. If a term has one value, whether it is asked
for its gradient or not, then so has its penalty, and so has a term under any number of penalties.

## Main results

* `phi_eq_closed`: the closed form.
* `line_le_closed`, `line_slope`: the penalty is the largest of its lines.
* `tangent_le_closed`, `convexOn_closed`, `monotone_closed`, `closed_le_of_le`: its shape.
* `Term.Agrees.penalized`, `Term.Agrees.under`: terms under one penalty and under many.
* `penalized_of_agrees`: value and gradient of a penalty, and its shape.
-/

namespace Separable

open Scalar

namespace Penalty

/-! ## The largest of many lines -/

/-- The penalty of a constraint with value `t`, in one formula. -/
noncomputable def closed (mu dual t : ℝ) : ℝ := (max 0 (dual + mu * t) ^ 2 - dual ^ 2) / (2 * mu)

/-- The slope of the penalty. -/
noncomputable def slope (mu dual t : ℝ) : ℝ := max 0 (dual + mu * t)

/-- What the multiplier `l` makes of a value, less what it costs to move there from `dual`. -/
noncomputable def line (mu dual l t : ℝ) : ℝ := l * t - (l - dual) ^ 2 / (2 * mu)

variable {mu : ℝ}

theorem phi_eq_closed (hmu : 0 < mu) (dual t : ℝ) : phi mu dual t = closed mu dual t := by
  have hsplit : -t - dual / mu ≤ 0 ↔ 0 ≤ dual + mu * t := by
    rw [Constraint.add_mul_eq hmu, mul_nonneg_iff_of_pos_left hmu]
    constructor <;> intro h <;> linarith
  unfold phi closed
  by_cases hactive : 0 ≤ dual + mu * t
  · rw [if_pos (hsplit.2 hactive), max_eq_right hactive]
    field_simp
    ring
  · rw [if_neg (mt hsplit.1 hactive), max_eq_left (not_le.1 hactive).le]
    ring

/-- How far a line lies below the penalty: nowhere above it, and on it if `l` is the slope. -/
theorem closed_sub_line (hmu : 0 < mu) (dual l t : ℝ) :
    closed mu dual t - line mu dual l t =
      ((l - slope mu dual t) ^ 2 + 2 * l * (slope mu dual t - (dual + mu * t))) / (2 * mu) := by
  unfold closed line slope
  field_simp
  ring

theorem line_le_closed (hmu : 0 < mu) (dual : ℝ) {l : ℝ} (hl : 0 ≤ l) (t : ℝ) :
    line mu dual l t ≤ closed mu dual t := by
  have hslope : 0 ≤ slope mu dual t - (dual + mu * t) := sub_nonneg.2 (le_max_right _ _)
  have hgap : 0 ≤ closed mu dual t - line mu dual l t := by
    rw [closed_sub_line hmu]
    positivity
  linarith

theorem line_slope (hmu : 0 < mu) (dual t : ℝ) :
    line mu dual (slope mu dual t) t = closed mu dual t := by
  have hends : slope mu dual t * (slope mu dual t - (dual + mu * t)) = 0 := by
    unfold slope
    rcases max_choice 0 (dual + mu * t) with hzero | hactive
    · rw [hzero, zero_mul]
    · rw [hactive, sub_self, mul_zero]
  have hgap := closed_sub_line hmu dual (slope mu dual t) t
  rw [mul_assoc, hends, sub_self, mul_zero, add_zero, zero_pow two_ne_zero, zero_div] at hgap
  exact (sub_eq_zero.1 hgap).symm

theorem slope_nonneg (mu dual t : ℝ) : 0 ≤ slope mu dual t := le_max_left _ _

/-! ## The shape of the penalty -/

/-- The penalty lies above its tangents. -/
theorem tangent_le_closed (hmu : 0 < mu) (dual s t : ℝ) :
    closed mu dual t + slope mu dual t * (s - t) ≤ closed mu dual s := by
  calc closed mu dual t + slope mu dual t * (s - t)
      = line mu dual (slope mu dual t) s := by
        rw [← line_slope hmu]
        unfold line
        ring
    _ ≤ closed mu dual s := line_le_closed hmu dual (slope_nonneg mu dual t) s

theorem convexOn_closed (hmu : 0 < mu) (dual : ℝ) : ConvexOn ℝ Set.univ (closed mu dual) := by
  refine ⟨convex_univ, fun x _ y _ a b ha hb hab => ?_⟩
  have hx := line_le_closed hmu dual (slope_nonneg mu dual (a • x + b • y)) x
  have hy := line_le_closed hmu dual (slope_nonneg mu dual (a • x + b • y)) y
  rw [← line_slope hmu dual (a • x + b • y)]
  generalize slope mu dual (a • x + b • y) = l at hx hy ⊢
  calc line mu dual l (a • x + b • y)
      = a * line mu dual l x + b * line mu dual l y := by
        have hsum : b = 1 - a := by linarith
        subst hsum
        simp only [line, smul_eq_mul]
        ring
    _ ≤ a • closed mu dual x + b • closed mu dual y :=
        add_le_add (mul_le_mul_of_nonneg_left hx ha) (mul_le_mul_of_nonneg_left hy hb)

theorem continuous_closed (mu dual : ℝ) : Continuous (closed mu dual) := by
  unfold closed
  fun_prop

theorem monotone_closed (hmu : 0 < mu) (dual : ℝ) : Monotone (closed mu dual) := by
  intro s t hst
  have hnonneg := slope_nonneg mu dual s
  calc closed mu dual s = line mu dual (slope mu dual s) s := (line_slope hmu dual s).symm
    _ ≤ line mu dual (slope mu dual s) t :=
      sub_le_sub_right (mul_le_mul_of_nonneg_left hst hnonneg) _
    _ ≤ closed mu dual t := line_le_closed hmu dual hnonneg t

/-- The penalty grows with its parameter, since moving a multiplier gets cheaper. -/
theorem closed_le_of_le (hmu : 0 < mu) {nu : ℝ} (hle : mu ≤ nu) (dual t : ℝ) :
    closed mu dual t ≤ closed nu dual t := by
  have hcost (l : ℝ) : (l - dual) ^ 2 / (2 * nu) ≤ (l - dual) ^ 2 / (2 * mu) := by
    gcongr
  calc closed mu dual t = line mu dual (slope mu dual t) t := (line_slope hmu dual t).symm
    _ ≤ line nu dual (slope mu dual t) t := sub_le_sub_left (hcost _) _
    _ ≤ closed nu dual t :=
        line_le_closed (hmu.trans_le hle) dual (slope_nonneg mu dual t) t

/-! ## Terms under penalties -/

/-- The value of a term under penalties, the innermost first, from the value `t` of the term. -/
noncomputable def valueUnder : List (ℝ × ℝ) → ℝ → ℝ
  | [], t => t
  | (dual, mu) :: rest, t => valueUnder rest (closed mu dual t)

/-- The slope of that value. -/
noncomputable def slopeUnder : List (ℝ × ℝ) → ℝ → ℝ
  | [], _ => 1
  | (dual, mu) :: rest, t => slopeUnder rest (closed mu dual t) * slope mu dual t

end Penalty

namespace Term

/-- Whether a term has one value, asked for its gradient or not, and what it makes of its buffers. -/
structure Agrees {α : Type} (term : Term α) (args : List (List α)) (rows slopes : Rows α) (t : α) :
    Prop where
  value : term.value args = .ok t
  gradient : term.gradient args rows = (slopes, .ok t)

/-- A term under penalties, each with its multiplier and its parameter, the innermost first. -/
def under {α : Type} [Backend α] (term : Term α) (layers : List (α × α)) : Term α :=
  layers.foldl (fun term layer => term.penalized layer.1 layer.2) term

variable {term : Term ℝ} {args : List (List ℝ)} {rows slopes : Rows ℝ} {t : ℝ}

theorem Agrees.penalized (h : term.Agrees args rows slopes t) {mu : ℝ} (hmu : 0 < mu) (dual : ℝ) :
    (term.penalized dual mu).Agrees args rows
      (mapRows (fun _ _ g => Penalty.slope mu dual t * g) slopes) (Penalty.closed mu dual t) := by
  have hvalue : (term.penalized dual mu).value args = .ok (Penalty.closed mu dual t) := by
    show (term.value args).bind (Penalty.value dual mu) = _
    rw [h.value, ← Penalty.phi_eq_closed hmu, ← Penalty.value_real hmu]
    rfl
  refine ⟨hvalue, ?_⟩
  obtain ⟨value, hgradient⟩ := Penalty.gradient_penalized hmu term dual h.gradient
  have hagain : ((term.penalized dual mu).gradient args rows).2 =
      (term.penalized dual mu).value args := by
    show (Penalty.gradient dual mu (term.gradient args rows).1 (term.gradient args rows).2).2 =
      (term.value args).bind (Penalty.value dual mu)
    rw [Penalty.result_gradient, h.gradient, h.value]
  rw [hgradient, hvalue] at hagain
  rw [hgradient, show Except.ok value = .ok (Penalty.closed mu dual t) from hagain]
  simp only [Constraint.moved_eq_max hmu, Penalty.slope, mul_comm]

/-- Penalties of terms that have one value have one value, to any depth. -/
theorem Agrees.under {layers : List (ℝ × ℝ)} (hlayers : ∀ layer ∈ layers, 0 < layer.2)
    (h : term.Agrees args rows slopes t) :
    (term.under layers).Agrees args rows
      (mapRows (fun _ _ g => Penalty.slopeUnder layers t * g) slopes)
      (Penalty.valueUnder layers t) := by
  induction layers generalizing term slopes t with
  | nil =>
      have hsame : mapRows (fun _ _ g => Penalty.slopeUnder [] t * g) slopes = slopes := by
        simp [mapRows_eq_map, Penalty.slopeUnder]
      rw [hsame]
      exact h
  | cons layer rest ih =>
      obtain ⟨hlayer, hrest⟩ := List.forall_mem_cons.1 hlayers
      have houter := ih hrest (h.penalized hlayer layer.1)
      have hslopes : mapRows (fun _ _ g => Penalty.slopeUnder rest
            (Penalty.closed layer.2 layer.1 t) * g)
          (mapRows (fun _ _ g => Penalty.slope layer.2 layer.1 t * g) slopes) =
          mapRows (fun _ _ g => Penalty.slopeUnder (layer :: rest) t * g) slopes := by
        simp [mapRows_eq_map, Penalty.slopeUnder, Function.comp_def, mul_assoc]
      rw [hslopes] at houter
      exact houter

end Term

namespace Penalty

/-- A penalty of a term that has one value has the closed form for its value, asked for its gradient
or not, and its gradient is that of the term times the slope of the closed form. This is so of terms
under penalties, too. The closed form lies above its tangents, so it is convex; it is continuous, and
it grows with the value and with the penalty parameter. -/
theorem penalized_of_agrees {term : Term ℝ} {args : List (List ℝ)} {rows slopes : Rows ℝ} {t : ℝ}
    (hvalue : term.value args = .ok t) (hgradient : term.gradient args rows = (slopes, .ok t))
    {layers : List (ℝ × ℝ)} (hlayers : ∀ layer ∈ layers, 0 < layer.2) {mu : ℝ} (hmu : 0 < mu)
    (dual : ℝ) :
    (∃ u inner, u = valueUnder layers t ∧
      inner = mapRows (fun _ _ g => slopeUnder layers t * g) slopes ∧
      (term.under layers).value args = .ok u ∧
      (term.under layers).gradient args rows = (inner, .ok u) ∧
      ((term.under layers).penalized dual mu).value args = .ok (closed mu dual u) ∧
      ((term.under layers).penalized dual mu).gradient args rows =
        (mapRows (fun _ _ g => slope mu dual u * g) inner, .ok (closed mu dual u))) ∧
    (∀ s t, closed mu dual t + slope mu dual t * (s - t) ≤ closed mu dual s) ∧
    ConvexOn ℝ Set.univ (closed mu dual) ∧ Continuous (closed mu dual) ∧
    Monotone (closed mu dual) ∧
    ∀ nu, mu ≤ nu → ∀ t, closed mu dual t ≤ closed nu dual t := by
  have hagrees : term.Agrees args rows slopes t := ⟨hvalue, hgradient⟩
  have hinner := hagrees.under hlayers
  have houter := hinner.penalized hmu dual
  exact ⟨⟨_, _, rfl, rfl, hinner.value, hinner.gradient, houter.value, houter.gradient⟩,
    tangent_le_closed hmu dual, convexOn_closed hmu dual, continuous_closed mu dual,
    monotone_closed hmu dual, fun nu hle t => closed_le_of_le hmu hle dual t⟩

/-- The term `2 x + 1` is `3` at `x = 1`; its penalty is `12` there, with the slope `7`, and the
penalty of the penalty is `276`, with the slope `47`. -/
theorem penalized_twice :
    (((Term.affine [[2]] 1).penalized 1 2).penalized (-1) 4 : Term ℝ).value [[1]] = .ok 276 ∧
    (((Term.affine [[2]] 1).penalized 1 2).penalized (-1) 4 : Term ℝ).gradient [[1]] [[0]] =
      ([[658]], .ok 276) := by
  have hvalue : (Term.affine [[2]] 1 : Term ℝ).value [[1]] = .ok 3 := by
    simp [Term.affine]
    norm_num
  have hgradient : (Term.affine [[2]] 1 : Term ℝ).gradient [[1]] [[0]] = ([[2]], .ok 3) := by
    simp [Term.affine, Term.firstShort, mapRows]
    norm_num
  have hlayers : ∀ layer ∈ [((1 : ℝ), (2 : ℝ))], 0 < layer.2 := by simp
  have hfour : (0 : ℝ) < 4 := by norm_num
  obtain ⟨⟨u, inner, hu, hinner, -, -, houter, hslopes⟩, -⟩ :=
    penalized_of_agrees hvalue hgradient hlayers hfour (-1)
  have hu : u = 12 := by
    rw [hu]
    norm_num [valueUnder, closed]
  have hinner : inner = [[14]] := by
    rw [hinner]
    norm_num [slopeUnder, slope, mapRows]
  have hclosed : closed 4 (-1) 12 = 276 := by norm_num [closed]
  have hslope : slope 4 (-1) 12 = 47 := by norm_num [slope]
  rw [hu, hclosed] at houter hslopes
  rw [hinner, hslope] at hslopes
  refine ⟨houter, hslopes.trans ?_⟩
  norm_num [mapRows]

end Penalty

end Separable
