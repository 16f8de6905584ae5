import Separable.Proofs.Directory
import Separable.Proofs.Problem

/-!
# Additions to a graph

A graph grows by requests for a variable and by requests for a term. A request is checked in several
ways, by the registry and by the graph, and the first check that fails names the cause. Only a
request that passes all of them changes anything. So a refused request leaves no trace, neither in
the registry nor in the terms, the version or the pool, and a granted one moves the version and
keeps everything that was there.

The checks are put into words that do not mention their order: `Registry.Refuses` and
`Graph.Declines` say for each cause when it is the one.

## Main results

* `Registry.check_eq_error_iff`, `Registry.exists_refuses_iff`: why a storage is refused, and
  whether it is.
* `Graph.bind_eq_error_iff`: why a term is refused.
* `Graph.additions`: what requests do to a graph, whatever its state.
-/

namespace Separable

variable {α : Type}

/-! ## Requests for a variable -/

namespace Registry

/-- The causes for which a storage is refused. -/
inductive Refuses (r : Registry α) (s : Storage) (dimension : Option Int)
    (reparam : Option (Reparam α)) : Fault → Prop where
  /-- The storage is not a one-dimensional array. -/
  | notAVector (hlength : s.vectorLength? = none) : r.Refuses s dimension reparam .notAVector
  /-- Its elements are no floating-point numbers. -/
  | notFloating {length : Nat} {kind : String} (hlength : s.vectorLength? = some length)
      (hkind : s.kind.otherThanFloating? = some kind) :
      r.Refuses s dimension reparam (.notFloating kind)
  /-- It is registered with another dimension. -/
  | registeredAs {length : Nat} {v : Variable α} (hlength : s.vectorLength? = some length)
      (hkind : s.kind.otherThanFloating? = none) (hknown : r.findStorage? s = some v)
      (hdimension : (v.userDimension : Int) ≠ dimension.getD length) :
      r.Refuses s dimension reparam (.registeredAs v.userDimension (dimension.getD length))
  /-- It is new, and not as long as the dimension says. -/
  | storageLength {length : Nat} (hlength : s.vectorLength? = some length)
      (hkind : s.kind.otherThanFloating? = none) (hnew : r.findStorage? s = none)
      (hdimension : (length : Int) ≠ dimension.getD length) :
      r.Refuses s dimension reparam (.storageLength (dimension.getD length) length)
  /-- It is new and of the right length, but the reparameterization is for another dimension. -/
  | reparamDimension {length : Nat} {c : Reparam α} (hlength : s.vectorLength? = some length)
      (hkind : s.kind.otherThanFloating? = none) (hnew : r.findStorage? s = none)
      (hdimension : (length : Int) = dimension.getD length) (hreparam : reparam = some c)
      (hc : c.userDimension ≠ dimension.getD length) :
      r.Refuses s dimension reparam
        (.reparamDimension (dimension.getD length) c.userDimension)

theorem check_eq_error_iff {r : Registry α} {s : Storage} {dimension : Option Int}
    {reparam : Option (Reparam α)} {fault : Fault} :
    r.check s dimension reparam = .error fault ↔ r.Refuses s dimension reparam fault := by
  constructor
  · intro h
    unfold check at h
    split at h
    · next hlength =>
      cases h
      exact .notAVector hlength
    · next length kind hlength hkind =>
      cases h
      exact .notFloating hlength hkind
    · next length hlength hkind =>
      dsimp only at h
      split at h
      · next v hknown =>
        split at h
        · cases h
        · next hdimension =>
          cases h
          exact .registeredAs hlength hkind hknown hdimension
      · next hnew =>
        split at h
        · next hdimension =>
          split at h
          · cases h
          · next c =>
            split at h
            · cases h
            · next hc =>
              cases h
              exact .reparamDimension hlength hkind hnew hdimension rfl (hdimension ▸ hc)
        · next hdimension =>
          cases h
          exact .storageLength hlength hkind hnew hdimension
  · intro h
    cases h with
    | notAVector hlength => simp [check, hlength]
    | notFloating hlength hkind => simp [check, hlength, hkind]
    | registeredAs hlength hkind hknown hdimension =>
        simp [check, hlength, hkind, hknown, hdimension]
    | storageLength hlength hkind hnew hdimension =>
        simp [check, hlength, hkind, hnew, hdimension]
    | reparamDimension hlength hkind hnew hdimension hreparam hc =>
        rw [← hdimension] at hc ⊢
        simp [check, hlength, hkind, hnew, hreparam, ← hdimension, hc]

/-- Whether a storage cannot be registered: it is no vector of floating-point numbers, or it is
registered with another dimension than the one asked for, or it is new and itself or its
reparameterization has another dimension. Without a dimension, the length is asked for. -/
def Unfit (r : Registry α) (s : Storage) (dimension : Option Int) (reparam : Option (Reparam α)) :
    Prop :=
  s.vectorLength? = none ∨ s.kind.otherThanFloating? ≠ none ∨
    ∃ length, s.vectorLength? = some length ∧
      ((∃ v, r.findStorage? s = some v ∧ (v.userDimension : Int) ≠ dimension.getD length) ∨
        r.findStorage? s = none ∧
          ((length : Int) ≠ dimension.getD length ∨
            ∃ c, reparam = some c ∧ c.userDimension ≠ dimension.getD length))

theorem exists_refuses_iff {r : Registry α} {s : Storage} {dimension : Option Int}
    {reparam : Option (Reparam α)} :
    (∃ fault, r.Refuses s dimension reparam fault) ↔ r.Unfit s dimension reparam := by
  constructor
  · rintro ⟨fault, h⟩
    cases h with
    | notAVector hlength => exact .inl hlength
    | notFloating _ hkind => exact .inr (.inl (by simp [hkind]))
    | registeredAs hlength _ hknown hdimension =>
        exact .inr (.inr ⟨_, hlength, .inl ⟨_, hknown, hdimension⟩⟩)
    | storageLength hlength _ hnew hdimension =>
        exact .inr (.inr ⟨_, hlength, .inr ⟨hnew, .inl hdimension⟩⟩)
    | reparamDimension hlength _ hnew _ hreparam hc =>
        exact .inr (.inr ⟨_, hlength, .inr ⟨hnew, .inr ⟨_, hreparam, hc⟩⟩⟩)
  · intro h
    cases hlength : s.vectorLength? with
    | none => exact ⟨_, .notAVector hlength⟩
    | some length =>
        cases hkind : s.kind.otherThanFloating? with
        | some kind => exact ⟨_, .notFloating hlength hkind⟩
        | none =>
            rcases h with hno | hno | ⟨n, hn, h⟩
            · rw [hlength] at hno
              cases hno
            · exact absurd hkind hno
            · obtain rfl : length = n := Option.some.inj (hlength.symm.trans hn)
              rcases h with ⟨v, hknown, hdimension⟩ | ⟨hnew, h⟩
              · exact ⟨_, .registeredAs hlength hkind hknown hdimension⟩
              · by_cases hdimension : (length : Int) = dimension.getD length
                · rcases h with hother | ⟨c, hreparam, hc⟩
                  · exact absurd hdimension hother
                  · exact ⟨_, .reparamDimension hlength hkind hnew hdimension hreparam hc⟩
                · exact ⟨_, .storageLength hlength hkind hnew hdimension⟩

/-! ## References to variables -/

theorem exists_resolve_of_contains {r : Registry α} {ref : Ref} (h : r.contains ref = true) :
    ∃ v, r.resolve ref = .ok v := by
  cases ref with
  | handle index =>
      obtain ⟨v, hv⟩ := Option.isSome_iff_exists.1 h
      exact ⟨v, by rw [resolve, hv]⟩
  | storage s =>
      obtain ⟨v, hv⟩ := Option.isSome_iff_exists.1 h
      exact ⟨v, by rw [resolve, hv]⟩

/-- The first argument that is not registered ends the look-up of arguments. -/
theorem mapM_resolve_of_find?_eq_some {r : Registry α} {arguments : List Ref} {ref : Ref}
    (h : arguments.find? (!r.contains ·) = some ref) :
    arguments.mapM r.resolve = .error ref.fault := by
  induction arguments with
  | nil => cases h
  | cons first rest ih =>
      rw [List.mapM_cons]
      cases hfirst : r.contains first with
      | false =>
          rw [List.find?_cons_of_pos (by simp [hfirst])] at h
          rw [(contains_eq_false_iff r first).1 hfirst, Option.some.inj h]
          rfl
      | true =>
          rw [List.find?_cons_of_neg (by simp [hfirst])] at h
          obtain ⟨v, hv⟩ := exists_resolve_of_contains hfirst
          rw [hv, ih h]
          rfl

theorem exists_mapM_resolve {r : Registry α} {arguments : List Ref}
    (h : ∀ ref ∈ arguments, r.contains ref = true) :
    ∃ vars, arguments.mapM r.resolve = .ok vars := by
  induction arguments with
  | nil => exact ⟨[], rfl⟩
  | cons first rest ih =>
      obtain ⟨v, hv⟩ := exists_resolve_of_contains (h first (by simp))
      obtain ⟨vars, hvars⟩ := ih fun ref href => h ref (List.mem_cons_of_mem first href)
      refine ⟨v :: vars, ?_⟩
      rw [List.mapM_cons, hv, hvars]
      rfl

/-- The variables that arguments mean stand at the places of the arguments. -/
theorem getElem?_of_mapM_resolve {r : Registry α} {arguments : List Ref} {vars : List (Variable α)}
    (h : arguments.mapM r.resolve = .ok vars) (i : Nat) (v : Variable α) :
    vars[i]? = some v ↔ ∃ ref, arguments[i]? = some ref ∧ r.resolve ref = .ok v := by
  have hall := Graph.forall₂_of_mapM h
  clear h
  induction hall generalizing i with
  | nil => simp
  | cons hfirst _ ih =>
      cases i with
      | zero => simp [hfirst]
      | succ i => simpa using ih i

end Registry

/-! ## Requests for a term -/

/-- There is a block of zeros for each ordered pair of variables, and there are no others. -/
theorem Bound.getElem?_zeroBlocks [Backend α] (vars : List (Variable α)) (i j : Nat) :
    ((zeroBlocks vars)[i]?.bind fun row => row[j]?) =
      vars[i]?.bind fun v => vars[j]?.map fun w => filled v.userDimension w.userDimension 0 := by
  rw [zeroBlocks, List.getElem?_map]
  cases vars[i]? with
  | none => rfl
  | some v => simp

namespace Graph

/-- The first position, counted from `start`, at which dimension and variable do not agree. -/
theorem firstMismatch_eq_some_iff {start position : Nat} {dimensions : List Int}
    {vars : List (Variable α)} {expected : Int} {actual : Nat} :
    firstMismatch start dimensions vars = some (position, expected, actual) ↔
      ∃ i v, position = start + i ∧ dimensions[i]? = some expected ∧ vars[i]? = some v ∧
        v.userDimension = actual ∧ (actual : Int) ≠ expected ∧
        ∀ j < i, dimensions[j]? = vars[j]?.map fun w => (w.userDimension : Int) := by
  induction dimensions generalizing start vars with
  | nil => simp [firstMismatch]
  | cons first dimensions ih =>
      cases vars with
      | nil => simp [firstMismatch]
      | cons w vars =>
          rw [firstMismatch]
          split
          · next hw =>
            rw [ih]
            constructor
            · rintro ⟨i, v, hposition, hexpected, hv, hactual, hne, hbefore⟩
              refine ⟨i + 1, v, by omega, hexpected, hv, hactual, hne, fun j hj => ?_⟩
              cases j with
              | zero => simp [hw]
              | succ j => exact hbefore j (by omega)
            · rintro ⟨i, v, hposition, hexpected, hv, hactual, hne, hbefore⟩
              cases i with
              | zero =>
                  cases hexpected
                  cases hv
                  exact absurd (hactual ▸ hw) hne
              | succ i =>
                  refine ⟨i, v, by omega, hexpected, hv, hactual, hne, fun j hj => ?_⟩
                  exact hbefore (j + 1) (by omega)
          · next hw =>
            constructor
            · intro h
              cases h
              exact ⟨0, w, rfl, rfl, rfl, rfl, hw, by simp⟩
            · rintro ⟨i, v, hposition, hexpected, hv, hactual, hne, hbefore⟩
              cases i with
              | zero =>
                  cases hexpected
                  cases hv
                  rw [hposition, hactual, Nat.add_zero]
              | succ i =>
                  have hfirst := hbefore 0 (by omega)
                  simp only [List.getElem?_cons_zero, Option.map_some, Option.some_inj] at hfirst
                  exact absurd hfirst.symm hw

/-- The causes for which a term is refused. -/
inductive Declines (g : Graph α) (s : Summand α) (arguments : List Ref) : Fault → Prop where
  /-- The number of arguments is not that of the term. -/
  | arity (harity : arguments.length ≠ s.dimensions.length) :
      g.Declines s arguments (.arity s.name s.dimensions.length arguments.length)
  /-- An argument is not registered; the first such counts. -/
  | unknown {ref : Ref} (harity : arguments.length = s.dimensions.length)
      (hfirst : arguments.find? (!g.registry.contains ·) = some ref) :
      g.Declines s arguments ref.fault
  /-- An argument has another dimension than the term wants; the first such counts. -/
  | argument {vars : List (Variable α)} {i : Nat} {expected : Int} {v : Variable α}
      (harity : arguments.length = s.dimensions.length)
      (hvars : arguments.mapM g.registry.resolve = .ok vars)
      (hexpected : s.dimensions[i]? = some expected) (hv : vars[i]? = some v)
      (hne : (v.userDimension : Int) ≠ expected)
      (hfirst : ∀ j < i, s.dimensions[j]? = vars[j]?.map fun w => (w.userDimension : Int)) :
      g.Declines s arguments (.argumentDimension i s.name expected v.userDimension)

theorem bind_eq_error_iff {g : Graph α} {s : Summand α} {arguments : List Ref} {fault : Fault} :
    g.bind s arguments = .error fault ↔ g.Declines s arguments fault := by
  constructor
  · intro h
    unfold bind at h
    split at h
    · next harity =>
      cases hfirst : arguments.find? (!g.registry.contains ·) with
      | some ref =>
          rw [Registry.mapM_resolve_of_find?_eq_some hfirst] at h
          cases h
          exact .unknown harity hfirst
      | none =>
          obtain ⟨vars, hvars⟩ := Registry.exists_mapM_resolve (r := g.registry) fun ref href => by
            simpa using List.find?_eq_none.1 hfirst ref href
          rw [hvars] at h
          dsimp only at h
          split at h
          · cases h
          · next position expected actual hmismatch =>
            cases h
            obtain ⟨i, v, hposition, hexpected, hv, rfl, hne, hbefore⟩ :=
              firstMismatch_eq_some_iff.1 hmismatch
            rw [hposition, Nat.zero_add]
            exact .argument harity hvars hexpected hv hne hbefore
    · next harity =>
      cases h
      exact .arity harity
  · intro h
    cases h with
    | arity harity => rw [bind, if_neg harity]
    | unknown harity hfirst =>
        rw [bind, if_pos harity, Registry.mapM_resolve_of_find?_eq_some hfirst]
    | @argument vars i expected v harity hvars hexpected hv hne hfirst =>
        have hmismatch : firstMismatch 0 s.dimensions vars =
            some (i, expected, v.userDimension) :=
          firstMismatch_eq_some_iff.2
            ⟨i, v, (Nat.zero_add i).symm, hexpected, hv, rfl, hne, hfirst⟩
        rw [bind, if_pos harity, hvars]
        simp only [hmismatch]

/-- A variable that does not have the dimension that is wanted ends in a mismatch. -/
theorem exists_firstMismatch {dimensions : List Int} {vars : List (Variable α)}
    (hlength : dimensions.length = vars.length) {i : Nat} {expected : Int} {v : Variable α}
    (hexpected : dimensions[i]? = some expected) (hv : vars[i]? = some v)
    (hne : (v.userDimension : Int) ≠ expected) :
    ∃ mismatch, firstMismatch 0 dimensions vars = some mismatch := by
  refine Option.ne_none_iff_exists'.1 fun hnone => hne ?_
  rw [dimensions_of_firstMismatch hlength hnone, List.getElem?_map, hv] at hexpected
  exact Option.some.inj hexpected

/-! ## What requests do -/

variable [Backend α]

/-- What a request for a variable does to a graph. -/
structure TakesVariable (g : Graph α) (s : Storage) (dimension : Option Int)
    (reparam : Option (Reparam α)) : Prop where
  /-- It is refused exactly for a storage that is unfit. -/
  refused : (∃ fault, (addVariable s dimension reparam g).result = .error fault) ↔
    g.registry.Unfit s dimension reparam
  cause : ∀ fault, (addVariable s dimension reparam g).result = .error fault ↔
    g.registry.Refuses s dimension reparam fault
  /-- A refusal leaves no trace. -/
  untouched : ∀ fault, (addVariable s dimension reparam g).result = .error fault →
    (addVariable s dimension reparam g).state = g
  /-- Otherwise the version moves, and at most one variable is new. -/
  granted : ∀ id, (addVariable s dimension reparam g).result = .ok id →
    g.version < (addVariable s dimension reparam g).state.version ∧
    (addVariable s dimension reparam g).state.terms = g.terms ∧
    ∃ more, (addVariable s dimension reparam g).state.registry.slots = g.registry.slots ++ more ∧
      more.length ≤ 1

/-- What a request for a term does to a graph. -/
structure TakesTerm (g : Graph α) (s : Summand α) (arguments : List Ref) : Prop where
  /-- The number of arguments comes first. -/
  arity : (∃ term expected given,
      (addTerm s arguments g).result = .error (.arity term expected given)) ↔
    arguments.length ≠ s.dimensions.length
  /-- Then it matters whether all arguments are registered. -/
  unknown : arguments.length = s.dimensions.length →
    ((∃ ref : Ref, (addTerm s arguments g).result = .error ref.fault) ↔
      ∃ ref ∈ arguments, g.registry.contains ref = false)
  /-- Last come their dimensions. -/
  argument : arguments.length = s.dimensions.length →
    (∀ ref ∈ arguments, g.registry.contains ref = true) →
    ((∃ position term expected actual, (addTerm s arguments g).result =
        .error (.argumentDimension position term expected actual)) ↔
      ∃ (i : Nat) (ref : Ref) (v : Variable α) (expected : Int), arguments[i]? = some ref ∧
        g.registry.resolve ref = .ok v ∧ s.dimensions[i]? = some expected ∧
        (v.userDimension : Int) ≠ expected)
  cause : ∀ fault, (addTerm s arguments g).result = .error fault ↔ g.Declines s arguments fault
  /-- A refusal leaves no trace. -/
  untouched : ∀ fault, (addTerm s arguments g).result = .error fault →
    (addTerm s arguments g).state = g
  /-- Otherwise the version moves, and one term is new. It is bound to the variables that are meant.
  Its blocks, if there are any, are zero, one for each ordered pair of arguments. -/
  granted : ∀ b, (addTerm s arguments g).result = .ok b →
    g.version < (addTerm s arguments g).state.version ∧
    (addTerm s arguments g).state.registry = g.registry ∧
    (addTerm s arguments g).state.terms = g.terms ++ [b] ∧
    b.summand = s ∧
    List.Forall₂ (fun ref v => g.registry.resolve ref = .ok v) arguments b.vars ∧
    if g.hessianEnabled then
      ∀ i j : Nat, (b.blocks[i]?.bind fun row => row[j]?) =
        b.vars[i]?.bind fun v => b.vars[j]?.map fun w => filled v.userDimension w.userDimension 0
    else b.blocks = []

theorem result_addVariable_eq_error_iff {g : Graph α} {s : Storage} {dimension : Option Int}
    {reparam : Option (Reparam α)} {fault : Fault} :
    (addVariable s dimension reparam g).result = .error fault ↔
      g.registry.Refuses s dimension reparam fault := by
  rw [← Registry.check_eq_error_iff]
  cases hcheck : g.registry.check s dimension reparam with
  | error other => simp [addVariable_of_error (Registry.add_of_check_error hcheck)]
  | ok known =>
      cases known with
      | some id => simp [addVariable_of_ok (Registry.add_of_check_some hcheck)]
      | none => simp [addVariable_of_ok (Registry.add_of_check_none hcheck)]

theorem takesVariable (g : Graph α) (s : Storage) (dimension : Option Int)
    (reparam : Option (Reparam α)) : g.TakesVariable s dimension reparam where
  refused := by
    rw [← Registry.exists_refuses_iff]
    exact exists_congr fun _ => result_addVariable_eq_error_iff
  cause := fun _ => result_addVariable_eq_error_iff
  untouched := by
    intro fault hfault
    rcases of_addVariable s dimension reparam g with ⟨_, h⟩ | ⟨_, h⟩ | ⟨_, _, h⟩
    · rw [h]
    · rw [h] at hfault
      cases hfault
    · rw [h] at hfault
      cases hfault
  granted := by
    intro id hid
    rcases of_addVariable s dimension reparam g with ⟨_, h⟩ | ⟨_, h⟩ | ⟨_, _, h⟩
    · rw [h] at hid
      cases hid
    · rw [h]
      exact ⟨Nat.lt_succ_self _, rfl, [], (List.append_nil _).symm, Nat.zero_le _⟩
    · rw [h]
      exact ⟨Nat.lt_succ_self _, rfl, _, rfl, Nat.le_refl _⟩

theorem result_addTerm_eq_error_iff {g : Graph α} {s : Summand α} {arguments : List Ref}
    {fault : Fault} :
    (addTerm s arguments g).result = .error fault ↔ g.Declines s arguments fault := by
  rw [← bind_eq_error_iff]
  cases hbind : g.bind s arguments with
  | error other => simp [addTerm_of_error hbind]
  | ok vars => simp [addTerm_of_ok hbind]

omit [Backend α] in
theorem Declines.of_arity {g : Graph α} {s : Summand α} {arguments : List Ref} {term : String}
    {expected given : Nat} (h : g.Declines s arguments (.arity term expected given)) :
    arguments.length ≠ s.dimensions.length := by
  generalize hfault : Fault.arity term expected given = fault at h
  cases h with
  | arity harity => exact harity
  | @unknown ref _ _ => cases ref <;> cases hfault
  | argument => cases hfault

omit [Backend α] in
theorem Declines.of_unknown {g : Graph α} {s : Summand α} {arguments : List Ref} {other : Ref}
    (h : g.Declines s arguments other.fault) :
    ∃ ref ∈ arguments, g.registry.contains ref = false := by
  generalize hfault : other.fault = fault at h
  cases h with
  | arity => cases other <;> cases hfault
  | @unknown ref _ hfirst =>
      exact ⟨ref, List.mem_of_find?_eq_some hfirst, by simpa using List.find?_some hfirst⟩
  | argument => cases other <;> cases hfault

omit [Backend α] in
theorem Declines.of_argument {g : Graph α} {s : Summand α} {arguments : List Ref} {position : Nat}
    {term : String} {wanted : Int} {actual : Nat}
    (h : g.Declines s arguments (.argumentDimension position term wanted actual)) :
    ∃ (i : Nat) (ref : Ref) (v : Variable α) (expected : Int), arguments[i]? = some ref ∧
      g.registry.resolve ref = .ok v ∧ s.dimensions[i]? = some expected ∧
      (v.userDimension : Int) ≠ expected := by
  generalize hfault : Fault.argumentDimension position term wanted actual = fault at h
  cases h with
  | arity => cases hfault
  | @unknown ref _ _ => cases ref <;> cases hfault
  | @argument vars i expected v _ hvars hexpected hv hne _ =>
      obtain ⟨ref, href, hresolve⟩ := (Registry.getElem?_of_mapM_resolve hvars i v).1 hv
      exact ⟨i, ref, v, expected, href, hresolve, hexpected, hne⟩

theorem takesTerm (g : Graph α) (s : Summand α) (arguments : List Ref) :
    g.TakesTerm s arguments where
  arity := by
    simp only [result_addTerm_eq_error_iff]
    exact ⟨fun ⟨_, _, _, h⟩ => h.of_arity, fun harity => ⟨_, _, _, .arity harity⟩⟩
  unknown := by
    intro harity
    simp only [result_addTerm_eq_error_iff]
    refine ⟨fun ⟨_, h⟩ => h.of_unknown, fun ⟨ref, href, hcontains⟩ => ?_⟩
    have hsome : (arguments.find? (!g.registry.contains ·)).isSome :=
      List.find?_isSome.2 ⟨ref, href, by simp [hcontains]⟩
    obtain ⟨first, hfirst⟩ := Option.isSome_iff_exists.1 hsome
    exact ⟨first, .unknown harity hfirst⟩
  argument := by
    intro harity hcontains
    simp only [result_addTerm_eq_error_iff]
    refine ⟨fun ⟨_, _, _, _, h⟩ => h.of_argument, ?_⟩
    rintro ⟨i, ref, v, expected, href, hresolve, hexpected, hne⟩
    obtain ⟨vars, hvars⟩ := Registry.exists_mapM_resolve hcontains
    have hv := (Registry.getElem?_of_mapM_resolve hvars i v).2 ⟨ref, href, hresolve⟩
    have hlength : s.dimensions.length = vars.length :=
      harity.symm.trans (forall₂_of_mapM hvars).length_eq
    obtain ⟨⟨position, wanted, actual⟩, hmismatch⟩ :=
      exists_firstMismatch hlength hexpected hv hne
    refine ⟨position, s.name, wanted, actual, bind_eq_error_iff.1 ?_⟩
    rw [bind, if_pos harity, hvars]
    simp only [hmismatch]
  cause := fun _ => result_addTerm_eq_error_iff
  untouched := by
    intro fault hfault
    cases hbind : g.bind s arguments with
    | error other => rw [addTerm_of_error hbind]
    | ok vars =>
        rw [addTerm_of_ok hbind] at hfault
        cases hfault
  granted := by
    intro b hb
    cases hbind : g.bind s arguments with
    | error fault =>
        rw [addTerm_of_error hbind] at hb
        cases hb
    | ok vars =>
        rw [addTerm_of_ok hbind] at hb ⊢
        cases hb
        refine ⟨Nat.lt_succ_self _, rfl, rfl, rfl, (of_bind_eq_ok hbind).1, ?_⟩
        split
        · next henabled =>
          simp only [push, henabled, if_true]
          exact Bound.getElem?_zeroBlocks vars
        · next hdisabled => simp [push, hdisabled]

/-- A graph in any state refuses what does not fit, without a trace, and takes up everything
else. -/
theorem additions (g : Graph α) :
    (∀ s dimension reparam, g.TakesVariable s dimension reparam) ∧
      ∀ s arguments, g.TakesTerm s arguments :=
  ⟨takesVariable g, takesTerm g⟩

end Graph

end Separable
