import LinkedSearch.Proofs.Boosting
import LinkedSearch.Proofs.Inlining
import LinkedSearch.Proofs.Inspecting
import LinkedSearch.Proofs.Rounding

/-! # Boosts survive

The boost of an expansion is passed on to what takes its place, and a node that is compiled later puts its
boost on its fragment. So whatever an expansion was resolved to, its fragment has the boost of the expansion,
unless its query was put in its place and is not a predicate: the boosts of connectives, scopes and joins are
never put on anything.

* `Fragment.boost?`: the boost of a fragment, if it is of a kind that carries one.
* `keepsBoost`: what a fragment is inspected for.
* `Compiler.boosts_survive`: all fragments pass, in whatever order a compiler is used. -/

namespace LinkedSearch

open Number (Binary)
open Query (Arena Kind Label NodeId Tree)

/-! ## The boosts of fragments -/

/-- One is neutral, up to the rounding of the product. -/
theorem Number.Binary.one_mul (format : Number.Format) (b : Binary) :
    Binary.mul format .one b = b.convert format := by
  cases b with
  | nan => rfl
  | infinite negative => cases negative <;> rfl
  | finite x =>
    have hvalue : (Number.Finite.dyadic 1).value * x.value = x.value := Dyadic.one_mul _
    have hsign : ((Number.Finite.dyadic 1).isNegative != x.isNegative) = x.isNegative := by
      cases x.isNegative <;> rfl
    unfold Binary.one Binary.mul Binary.convert Binary.ofFinite
    simp only [hvalue, hsign]

/-- The boost of a condition on word positions, if it carries one. -/
def Span.boost? : Span → Option Boost
  | .term _ _ boost | .near _ _ _ boost => some boost
  | .multiTerm _ => none

namespace Fragment

/-- **The boost of a fragment**, if it is of a kind that carries one. -/
def boost? : Fragment → Option Boost
  | .matchAll boost | .term _ _ boost | .terms _ _ _ boost | .phrase _ _ boost | .range _ _ boost
  | .regexp _ _ boost | .wildcard _ _ boost | .leading _ _ boost | .fuzzy _ _ _ boost
  | .similar _ boost | .bool _ _ _ _ boost | .nested _ _ boost | .hasChild _ _ boost
  | .hasParent _ _ boost | .constantScore _ boost => some boost
  | .missing _ | .present _ | .script _ => none
  | .span condition => condition.boost?

/-- These are the fragments that carry a boost. -/
theorem isSome_boost? (F : Fragment) : F.boost?.isSome = F.isBoostable := by
  cases F with
  | span condition => cases condition <;> rfl
  | _ => rfl

/-- Boosting multiplies the boost. -/
theorem boost?_boosted (factor : Binary) (F : Fragment) :
    (F.boosted factor).boost? = F.boost?.map (Boost.times factor) := by
  cases F with
  | span condition => cases condition <;> rfl
  | _ => rfl

/-- What has no boosts has no boost. -/
theorem IsUnweighted.boost? {F : Fragment} (h : F.IsUnweighted) {boost : Boost}
    (hboost : F.boost? = some boost) : boost = none := by
  unfold IsUnweighted at h
  rw [← h] at hboost
  cases F with
  | span condition =>
    cases condition <;> simp_all [Fragment.boost?, Span.boost?, unweighted, Span.unweighted]
  | _ => simp_all [Fragment.boost?, unweighted]

/-- **A weighted fragment** has the boost that was put on it, if it had none and carries one. -/
theorem boost?_weighted {F : Fragment} (h : ∀ boost, F.boost? = some boost → boost = none) (b : Binary)
    {boost : Boost} (hboost : (F.weighted (some b)).boost? = some boost) :
    boost = some (b.convert .single) := by
  rw [weighted, boost?_boosted, Option.map_eq_some_iff] at hboost
  obtain ⟨before, hbefore, rfl⟩ := hboost
  rw [h before hbefore, Boost.times, Option.getD_none, Binary.one_mul]

end Fragment

/-- **Composite** nodes: connectives, scopes, and parent and child scopes. -/
def Query.Kind.isComposite (kind : Kind) : Bool :=
  !kind.isLeaf && !kind.isProximity && !kind.isExpansion

/-- What is not composite wraps and joins nothing, opens no scope, and is never admitted unseen. -/
theorem Query.Kind.sorts_of_isComposite {kind : Kind} (h : kind.isComposite = false) :
    kind.connective? = none ∧ kind.join? = none ∧ kind ≠ .scope ∧ kind.isAdmitted = false := by
  cases kind <;> simp_all [Kind.isComposite, Kind.isLeaf, Kind.isProximity, Kind.isExpansion,
    Kind.connective?, Kind.join?, Kind.isAdmitted]

namespace Compile

variable {env : Environment} {p q : Progress} {n : Nat} {F : Fragment}

/-- **What a fragment is inspected for**: if it carries a boost, it is that of its node. Fragments of
composite nodes are let through. -/
def keepsBoost (boosts : NodeId → Boost) (n : NodeId) (arena : Arena) (F : Fragment) : Bool :=
  match boosts n with
  | none => true
  | some b => (arena.label n).kind.isComposite || F.boost?.all (· = some (b.convert .single))

/-! ## Nodes -/

/-- The condition for a proximity has no boost yet. -/
theorem nearWithin_boost {fuel : Nat} {label : Label} {condition : Span}
    (h : exec (nearWithin env fuel label n) p = (.ok condition, q)) : condition.boost? = some none := by
  cases fuel with
  | zero => exact nomatch (congrArg Prod.fst h : Except.error _ = Except.ok _)
  | succ fuel =>
    unfold nearWithin at h
    obtain ⟨children, s, -, h⟩ := exec_bind_ok.mp h
    obtain ⟨clauses, -, rfl⟩ := exec_return_ok.mp h
    rfl

/-- **Predicates and proximities** are compiled to fragments with their boosts. -/
theorem yields_boost {recur : NodeId → Compile Fragment} {b : Binary}
    (hb : (p.draft.arena.label n).boost = some b)
    (hkind : (p.draft.arena.label n).kind.isComposite = false) (h : Yields env recur n p F q)
    {boost : Boost} (hboost : F.boost? = some boost) : boost = some (b.convert .single) := by
  obtain ⟨hconnective, hjoin, hscope, hadmitted⟩ := Kind.sorts_of_isComposite hkind
  cases h with
  | connective wrap clauses q hwrap hopen hall => exact absurd (hconnective.symm.trans hwrap) (by simp)
  | scope s u clauses F q hkind hentered hall hclose => exact absurd hkind hscope
  | joined join child rest inner q hwrap => exact absurd (hjoin.symm.trans hwrap) (by simp)
  | childless join hwrap => exact absurd (hjoin.symm.trans hwrap) (by simp)
  | admitted hleft => exact absurd (hadmitted.symm.trans hleft) (by simp)
  | proximity F q _ hexec =>
    obtain ⟨G, hG, rfl⟩ := exec_return_ok.mp hexec
    rw [hb] at hboost
    refine Fragment.boost?_weighted (fun before hbefore => ?_) b hboost
    unfold proximity at hG
    rw [exec_arena_bind] at hG
    obtain ⟨condition, hnear, rfl⟩ := exec_return_ok.mp hG
    exact (Option.some.inj ((nearWithin_boost hnear).symm.trans hbefore)).symm
  | predicate F q _ hexec =>
    obtain ⟨G, hG, rfl⟩ := exec_return_ok.mp hexec
    rw [hb] at hboost
    obtain ⟨_, -, hplain, -⟩ := (wp_of_ok hG).mp (leaf_unweighted (p.draft.arena.label n) p)
    exact Fragment.boost?_weighted (fun before => hplain.boost?) b hboost

/-- **Every node** is compiled to a fragment with its boost, on the way of which an expansion has passed its
boost on. -/
theorem nodeWithin_boost {boosts : NodeId → Boost} {fuel : Nat} (hp : Sound env p)
    (hboosts : ∀ i b, boosts i = some b → (p.draft.arena.label i).boost = some b)
    (hn : n < p.draft.arena.size) (h : exec (nodeWithin env fuel n) p = (.ok F, q)) :
    keepsBoost boosts n q.draft.arena F = true := by
  unfold keepsBoost
  split
  · rfl
  next b hb =>
  induction fuel generalizing p q with
  | zero => exact nomatch (congrArg Prod.fst h : Except.error _ = Except.ok _)
  | succ fuel ih =>
    obtain ⟨hpq, hcompiled⟩ := (wp_of_ok h).mp (leads_node fuel (nodeWithin_steps fuel) hp n)
    cases hexpansion : (p.draft.arena.label n).kind.isExpansion with
    | true =>
      obtain ⟨stack, s, -, hexpanded, rfl⟩ := hcompiled.expanded hexpansion
      obtain ⟨link, target, t, -, -, -, -, hpt, hexec⟩ := hexpanded
      exact ih (q := s) hpt.sound (fun i b hi => hpt.keeps.boost_eq i b (hboosts i b hi))
        (Nat.lt_of_lt_of_le hn hpt.size_le) hexec
    | false =>
      rw [hpq.keeps.kind_eq n hn hexpansion]
      cases hcomposite : (p.draft.arena.label n).kind.isComposite with
      | true => rfl
      | false =>
        rw [Bool.false_or, Option.all_eq_true]
        intro boost hboost
        exact decide_eq_true (yields_boost (hboosts n b hb) hcomposite ((yields_iff hexpansion).mp h) hboost)

/-- Boosts stay where they are, so that the fragments of nodes can be inspected for them. -/
theorem sieve_boosts (env : Environment) (boosts : NodeId → Boost) : Sieve env (keepsBoost boosts)
    fun arena => ∀ i b, boosts i = some b → (arena.label i).boost = some b where
  keep := fun hholds _ hkeeps i b hi => hkeeps.boost_eq i b (hholds i b hi)
  pass := nodeWithin_boost

end Compile

namespace Compiler

open Compile

variable {setup : Setup} {compiler : Compiler}

/-- **The boost of an expansion survives.** However a compiler was used, and with whatever outcomes: the
compiler that inspects the fragments of all nodes for the boosts of the request, and does something arbitrary
with one that carries another boost or none, gives the same query, or the same error, and leaves the same state
behind. The fragments of composite nodes are the only ones that are let through; and such a node stands in the
place of an expansion only if its query, a composite one, was put there. -/
theorem boosts_survive (hstart : setup.start = .ok compiler) (uses : List Use)
    (stop : NodeId → Compile Fragment) :
    (compiler.used uses).run (fun env => inspectedQuery env
        (keepsBoost fun n => (compiler.progress.draft.arena.label n).boost) stop) =
      (compiler.used uses).run rootQuery ∧
    ∀ n, (compiler.progress.draft.arena.label n).kind.isExpansion = true →
      ((compiler.used uses).progress.draft.arena.label n).kind.isComposite = true →
      ∃ r ∈ (compiler.used uses).reports, r.id = n ∧ (∃ own, r.resolution = .inPlace own) ∧
        r.query.label.kind.isComposite = true := by
  have hidle := idle_of_started (Setup.started_of_ok hstart)
  have hevolves := used_evolves hidle uses
  refine ⟨?_, fun n hexpansion hcomposite => ?_⟩
  · have hcoincides := inspectedQuery_coincides (sieve_boosts (compiler.used uses).environment _) stop
      (hidle.used uses).rootedState hevolves.keeps.boost_eq
    exact congrArg (fun result : Except Error Fragment × Progress =>
      (result.1, { compiler.used uses with progress := result.2 })) hcoincides
  · have hnot : ((compiler.used uses).progress.draft.arena.label n).kind.isExpansion ≠ true := by
      intro hstill
      simp [Kind.isComposite, hstill] at hcomposite
    obtain ⟨r, hr, hid, hleaves⟩ := (hevolves.resolved n hexpansion).resolve_left hnot
    refine ⟨r, hr, hid, ?_⟩
    unfold Report.Leaves at hleaves
    split at hleaves
    · next own hresolution => exact ⟨⟨own, hresolution⟩, hleaves ▸ hcomposite⟩
    · simp [Kind.isComposite, Kind.isLeaf, hleaves] at hcomposite
    · obtain ⟨values, hits, hkind⟩ := hleaves
      simp [Kind.isComposite, Kind.isLeaf, hkind] at hcomposite

/-- Books found through an expansion with a boost. -/
def boostedSearch (link : Link) (query : Tree) : Setup where
  index := "books"
  request := { query := some ((Tree.expansion link query).withBoost (.ofInt .single 2)) }
  resolver := some austen.resolver
  executor := some austen.executor

/-- The values of a scan have the boost, on the first compilation and on the next one. -/
theorem boosts_survive_boostedSearch : ∃ compiler F G,
    (boostedSearch (.unnamed "author" "authors" "id") (.word "name" (.str "Austen"))).start = .ok compiler ∧
    compiler.query.1 = .ok F ∧ compiler.query.2.scans.length = 1 ∧
    (compiler.used [.call .query]).query.1 = .ok G ∧
    F.boost? = some (some (.ofInt .single 2)) ∧ G.boost? = some (some (.ofInt .single 2)) ∧
    ∀ stop, ((compiler.used [.call .query]).run fun env => inspectedQuery env
      (keepsBoost fun n => (compiler.progress.draft.arena.label n).boost) stop).1 = .ok G := by
  have hrun : ((boostedSearch (.unnamed "author" "authors" "id")
      (.word "name" (.str "Austen"))).start.toOption.any fun compiler =>
      compiler.query.1.toOption.any fun F =>
        (compiler.used [.call .query]).query.1.toOption.any fun G =>
          decide (compiler.query.2.scans.length = 1) &&
            decide (F.boost? = some (some (.ofInt .single 2))) &&
            decide (G.boost? = some (some (.ofInt .single 2)))) = true := by
    decide +kernel
  simp only [Option.any_eq_true, toOption_eq_some, Bool.and_eq_true, decide_eq_true_eq] at hrun
  obtain ⟨compiler, hstart, F, hF, G, hG, ⟨hscans, hboost⟩, hboost'⟩ := hrun
  refine ⟨compiler, F, G, hstart, hF, hscans, hG, hboost, hboost', fun stop => ?_⟩
  exact (congrArg Prod.fst (boosts_survive hstart [.call .query] stop).1).trans hG

/-- **A conjunction in the place of an expansion** does not take the boost over, although a conjunction of
clauses carries one. -/
theorem boost_lost_boostedSearch : ∃ compiler F r,
    (boostedSearch (.unnamed "id" "books" "id")
      (.conjunction [.word "title" (.str "Emma"), .word "year" (.int 1815)])).start = .ok compiler ∧
    (compiler.progress.draft.arena.label 0).kind = .expansion (.unnamed "id" "books" "id") false ∧
    (compiler.progress.draft.arena.label 0).boost = some (.ofInt .single 2) ∧
    compiler.query.1 = .ok F ∧ F.isBoostable = true ∧ F.boost? = some none ∧
    compiler.query.2.reports = [r] ∧ r.id = 0 ∧ r.resolution = .inPlace true := by
  have hrun : ((boostedSearch (.unnamed "id" "books" "id")
      (.conjunction [.word "title" (.str "Emma"), .word "year" (.int 1815)])).start.toOption.any
      fun compiler => compiler.query.1.toOption.any fun F =>
        decide ((compiler.progress.draft.arena.label 0).kind =
            .expansion (.unnamed "id" "books" "id") false) &&
          decide ((compiler.progress.draft.arena.label 0).boost = some (.ofInt .single 2)) &&
          F.isBoostable && decide (F.boost? = some none) &&
          decide (compiler.query.2.reports.length = 1) && compiler.query.2.reports.all fun r =>
            decide (r.id = 0) && decide (r.resolution.own? = some true)) = true := by
    decide +kernel
  simp only [Option.any_eq_true, toOption_eq_some, Bool.and_eq_true, decide_eq_true_eq,
    List.length_eq_one_iff, List.all_eq_true, Resolution.own?_eq_some] at hrun
  obtain ⟨compiler, hstart, F, hF, ⟨⟨⟨⟨hkind, hboost⟩, hboostable⟩, hlost⟩, r, hr⟩, hreport⟩ := hrun
  obtain ⟨hid, hplace⟩ := hreport r (by simp [hr])
  exact ⟨compiler, F, r, hstart, hkind, hboost, hF, hboostable, hlost, hr, hid, hplace⟩

end Compiler

end LinkedSearch
