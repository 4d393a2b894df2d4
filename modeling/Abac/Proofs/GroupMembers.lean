import Abac.Proofs.GroupComposition

/-!
What a compiled group is made of. The names in its expression are the words of the text, each once.
Every name stands for the policy that the member of this name compiles to, and in every context the
group evaluates these policies, in the order of the names, and nothing else. So members that the
expression does not name have no part in what it evaluates to (`GroupExpr.evaluate_compiled_group`).
-/
namespace Abac.GroupExpr

/-- A compiled group depends on the members that the expression names only. -/
theorem compile_group_congr {source : String} {e : GroupExpr} (he : parse source = .ok e)
    {policies others : Entries Declaration none} {policy other : Policy}
    (hpolicy : Policy.compile (.group source policies) = .ok policy)
    (hother : Policy.compile (.group source others) = .ok other)
    (hsame : ∀ name ∈ e.names, others.get? name = policies.get? name) : other = policy := by
  obtain ⟨members, hmembers, rfl⟩ := Policy.exists_members_of_compile he hpolicy
  obtain ⟨otherMembers, hotherMembers, rfl⟩ := Policy.exists_members_of_compile he hother
  have hnames : ∀ name ∈ e.names, (name, otherMembers name) = (name, members name) := by
    intro name hname
    obtain ⟨declaration, hget, hcompile⟩ := hmembers name hname
    obtain ⟨otherDeclaration, hotherGet, hotherCompile⟩ := hotherMembers name hname
    have hdeclaration : otherDeclaration = declaration :=
      Option.some.inj (hotherGet.symm.trans ((hsame name hname).trans hget))
    rw [hdeclaration] at hotherCompile
    rw [Except.ok.inj (hotherCompile.symm.trans hcompile)]
  rw [group, group, List.map_congr_left hnames]

/-- A group combines the results of the policies that it names. -/
theorem evaluate_group (e : GroupExpr) (members : String → Policy) (ctx : Context) :
    (e.group members).evaluate ctx = .combine ((e.group members).evaluate ctx).applicable
      (e.names.map fun name => (members name).evaluate ctx) := by
  have hchildren : (e.group members).children = e.names.map members := by
    rw [group, Policy.children, List.map_map]
    rfl
  rw [(e.group members).evaluate_node ctx rfl, hchildren, List.map_map]
  rfl

theorem firstOccurrences_of_parse {source : String} {e : GroupExpr} (he : parse source = .ok e) :
    ∃ kinds, Lexed source.toList kinds ∧
      FirstOccurrences (kinds.filterMap TokenKind.name?) e.names := by
  obtain ⟨input, hinput, hderives⟩ := parse_eq_ok_iff.mp he
  refine ⟨input.map Token.kind, lexed_of_tokens hinput, ?_⟩
  rw [← occurrences_of_derives (ofTokens_eq_ok_iff.mp hderives)]
  exact e.firstOccurrences_names

def onDuty : GroupExpr := .and (.policy "staff") (.or (.policy "duty") (.policy "staff"))

def declared (effects : List (String × Effect)) : Entries Declaration none :=
  Dict.ofList (effects.map fun member => (member.1, .leaf ⟨member.2, [], []⟩))

def staffOrDuty (name : String) : Policy :=
  .leaf ⟨if name = "duty" then .deny else .permit, [], []⟩

end Abac.GroupExpr
