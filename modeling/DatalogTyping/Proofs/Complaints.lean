import DatalogTyping.Proofs.FinalChoices

/-!
# What the check complains about

An argument can have a flaw of its own, whatever its types are: it is a numeral or a functor
that is not resolved, it calls something that is not declared or not declared well, or it casts
to a type that does not exist (`Knowledge.HasFlaw`). An argument offends if it has a flaw or has
no type (`Knowledge.Offends`).

The complaint about an argument is about its flaw if it has one, and about its lack of a type
otherwise (`Knowledge.issue?_eq`). Since the check goes through the arguments of all clauses in
order, its complaints are those about the offending arguments, one for each
(`SessionM.check_of_analyse`). A report with a limit keeps the first of them
(`Report.addAll_of_limit`, `SessionM.check_limited`).
-/

namespace DatalogTyping

theorem TypeSet.isEmpty_iff {types : TypeSet} : types.isEmpty ↔ types = .empty := by
  rcases types with _ | ⟨names, ordered⟩
  · simp [isEmpty, empty]
  · simp [isEmpty, empty, Names.empty]

/-! ### Occurrences and flaws -/

/-- An argument of a clause, with the typing of the clause. -/
structure Occurrence where
  typing : ClauseTyping
  argument : Node

namespace Occurrence

/-- The set of types that the typing of the clause has for the argument. -/
def types? (occurrence : Occurrence) : Option TypeSet :=
  occurrence.typing.get? occurrence.argument.id

/-- The arguments of clauses, in the order of the traversal. -/
def all (typings : List ClauseTyping) : List Occurrence :=
  typings.flatMap fun typing => typing.clause.arguments.map (Occurrence.mk typing)

end Occurrence

/-- What can be wrong with an argument, whatever its types are. -/
inductive Flaw where
  | unresolvedNumeral (text : String)
  | noOverload (symbol : String)
  | undeclared (name : String)
  | illDeclared (name : String) (signature : Signature)
  | unknownType (typeName : String)

/-- The complaint about a flaw. -/
def Flaw.issue (occurrence : Occurrence) : Flaw → Issue
  | unresolvedNumeral text =>
      .unresolvedNumeral occurrence.typing.clause occurrence.argument text
  | noOverload symbol =>
      .noOverload occurrence.typing.clause occurrence.argument symbol
        (occurrence.argument.children.filterMap fun operand => occurrence.typing.get? operand.id)
  | undeclared name => .undeclaredFunctor occurrence.typing.clause occurrence.argument name
  | illDeclared name signature =>
      .illDeclaredFunctor occurrence.typing.clause occurrence.argument signature.node name
  | unknownType typeName =>
      .undeclaredCastType occurrence.typing.clause occurrence.argument typeName

namespace Knowledge

variable {known : Knowledge} {argument : Node} {flaw : Flaw} {occurrence : Occurrence}

/-- The argument has the flaw. -/
inductive HasFlaw (known : Knowledge) (argument : Node) : Flaw → Prop
  | numeral {text : String} {fixed : Option NumericKind}
      (label : argument.label = .numeral text fixed)
      (unresolved : known.resolutions.numerals.get? argument.id = none) :
      HasFlaw known argument (.unresolvedNumeral text)
  | functor {symbol : String} (label : argument.label = .functor symbol)
      (unresolved : known.resolutions.functors.get? argument.id = none) :
      HasFlaw known argument (.noOverload symbol)
  | undeclared {name : String} (label : argument.label = .call name ∨ argument.label = .fold name)
      (missing : ∀ signature ∈ known.context.signatures, signature.name ≠ name) :
      HasFlaw known argument (.undeclared name)
  | illDeclared {name typeName : String} {signature : Signature}
      (label : argument.label = .call name ∨ argument.label = .fold name)
      (declared : known.context.signature? name = some signature)
      (mentioned : typeName ∈ signature.params ++ [signature.result])
      (missing : known.context.env.isType typeName = false) :
      HasFlaw known argument (.illDeclared name signature)
  | cast {typeName : String} (label : argument.label = .cast typeName)
      (missing : known.context.env.isType typeName = false) :
      HasFlaw known argument (.unknownType typeName)

/-- The flaw of a call. -/
def callFlaw? (known : Knowledge) (name : String) : Option Flaw :=
  match known.context.signature? name with
  | none => some (.undeclared name)
  | some signature =>
    if known.context.isUsable signature then none else some (.illDeclared name signature)

/-- The flaw of an argument. -/
def flaw? (known : Knowledge) (argument : Node) : Option Flaw :=
  match argument.label with
  | .numeral text _ =>
    if (known.numeralKind? argument).isSome then none else some (.unresolvedNumeral text)
  | .functor symbol => if known.isSettled argument then none else some (.noOverload symbol)
  | .call name | .fold name => known.callFlaw? name
  | .cast typeName =>
    if known.context.env.isType typeName then none else some (.unknownType typeName)
  | _ => none

theorem isUsable_eq_false_iff {context : Context} {signature : Signature} :
    context.isUsable signature = false ↔
      ∃ typeName ∈ signature.params ++ [signature.result], context.env.isType typeName = false := by
  simp [Context.isUsable, or_and_right, exists_or, imp_iff_not_or]

theorem callFlaw?_of_missing {name : String}
    (missing : ∀ signature ∈ known.context.signatures, signature.name ≠ name) :
    known.callFlaw? name = some (.undeclared name) := by
  have none : known.context.signature? name = none := by
    simpa [Context.signature?] using missing
  simp [callFlaw?, none]

theorem callFlaw?_of_declared {name : String} {signature : Signature}
    (declared : known.context.signature? name = some signature)
    (unusable : known.context.isUsable signature = false) :
    known.callFlaw? name = some (.illDeclared name signature) := by
  simp [callFlaw?, declared, unusable]

theorem flaw?_of_hasFlaw (h : known.HasFlaw argument flaw) : known.flaw? argument = some flaw := by
  cases h with
  | numeral label unresolved => simp [flaw?, label, numeralKind?, unresolved]
  | functor label unresolved => simp [flaw?, label, isSettled, Table.contains, unresolved]
  | undeclared label missing =>
      rcases label with label | label <;> simp [flaw?, label, callFlaw?_of_missing missing]
  | illDeclared label declared mentioned missing =>
      have unusable := isUsable_eq_false_iff.mpr ⟨_, mentioned, missing⟩
      rcases label with label | label <;>
        simp [flaw?, label, callFlaw?_of_declared declared unusable]
  | cast label missing => simp [flaw?, label, missing]

theorem hasFlaw_of_callFlaw? {name : String}
    (label : argument.label = .call name ∨ argument.label = .fold name)
    (h : known.callFlaw? name = some flaw) : known.HasFlaw argument flaw := by
  unfold callFlaw? at h
  split at h
  · rename_i none
    obtain rfl := Option.some.inj h
    exact .undeclared label (by simpa [Context.signature?] using none)
  · rename_i signature declared
    split at h
    · cases h
    · rename_i unusable
      obtain rfl := Option.some.inj h
      obtain ⟨typeName, mentioned, missing⟩ :=
        isUsable_eq_false_iff.mp (Bool.eq_false_iff.mpr unusable)
      exact .illDeclared label declared mentioned missing

theorem hasFlaw_of_flaw? (h : known.flaw? argument = some flaw) : known.HasFlaw argument flaw := by
  unfold flaw? at h
  cases label : argument.label with
  | numeral text fixed =>
      simp only [label] at h
      split at h
      · cases h
      · rename_i unresolved
        obtain rfl := Option.some.inj h
        exact .numeral label (by simpa [numeralKind?] using unresolved)
  | functor symbol =>
      simp only [label] at h
      split at h
      · cases h
      · rename_i unresolved
        obtain rfl := Option.some.inj h
        exact .functor label (by simpa [isSettled, label, Table.contains] using unresolved)
  | call name =>
      simp only [label] at h
      exact hasFlaw_of_callFlaw? (.inl label) h
  | fold name =>
      simp only [label] at h
      exact hasFlaw_of_callFlaw? (.inr label) h
  | cast typeName =>
      simp only [label] at h
      split at h
      · cases h
      · rename_i missing
        obtain rfl := Option.some.inj h
        exact .cast label (Bool.eq_false_iff.mpr missing)
  | _ =>
      simp only [label] at h
      cases h

theorem flaw?_eq_some_iff : known.flaw? argument = some flaw ↔ known.HasFlaw argument flaw :=
  ⟨hasFlaw_of_flaw?, flaw?_of_hasFlaw⟩

theorem flaw?_eq_none_iff :
    known.flaw? argument = none ↔ ∀ flaw, ¬ known.HasFlaw argument flaw := by
  simp only [Option.eq_none_iff_forall_ne_some, ne_eq, flaw?_eq_some_iff]

/-- The complaint about an argument is about its flaw, or else about its lack of a type. -/
theorem issue?_eq (types : TypeSet) :
    known.issue? occurrence.typing occurrence.argument types =
      ((known.flaw? occurrence.argument).map (Flaw.issue occurrence)).or
        (emptiness? occurrence.typing.clause occurrence.argument types) := by
  have call : ∀ name, known.callIssue? occurrence.typing.clause occurrence.argument name types =
      ((known.callFlaw? name).map (Flaw.issue occurrence)).or
        (emptiness? occurrence.typing.clause occurrence.argument types) := by
    intro name
    unfold callIssue? callFlaw?
    cases known.context.signature? name with
    | none => rfl
    | some signature =>
        dsimp only
        split <;> rfl
  unfold issue? flaw?
  cases occurrence.argument.label with
  | numeral text fixed | functor symbol | cast typeName =>
      dsimp only
      split <;> rfl
  | call name | fold name => exact call name
  | _ => rfl

/-! ### Offending arguments -/

/-- The argument has a flaw, or no type. -/
def Offends (known : Knowledge) (occurrence : Occurrence) : Prop :=
  occurrence.types? = some .empty ∨ ∃ flaw, known.HasFlaw occurrence.argument flaw

instance (known : Knowledge) : DecidablePred known.Offends := fun occurrence =>
  decidable_of_iff
    (occurrence.types? = some .empty ∨ (known.flaw? occurrence.argument).isSome)
    (or_congr_right (by simp only [Option.isSome_iff_exists, flaw?_eq_some_iff]))

/-- The issue says what is wrong with the argument. That it has no type is said only if there
is no flaw to be named. -/
inductive Explains (known : Knowledge) (occurrence : Occurrence) : Issue → Prop
  | flaw {flaw : Flaw} (has : known.HasFlaw occurrence.argument flaw) :
      Explains known occurrence (flaw.issue occurrence)
  | noType (flawless : ∀ flaw, ¬ known.HasFlaw occurrence.argument flaw)
      (empty : occurrence.types? = some .empty) :
      Explains known occurrence (.noType occurrence.typing.clause occurrence.argument)

theorem offends_iff : known.Offends occurrence ↔ ∃ issue, known.Explains occurrence issue := by
  constructor
  · intro offends
    by_cases has : ∃ flaw, known.HasFlaw occurrence.argument flaw
    · obtain ⟨flaw, has⟩ := has
      exact ⟨_, .flaw has⟩
    · exact ⟨_, .noType (not_exists.mp has) (offends.resolve_right has)⟩
  · rintro ⟨issue, ⟨has⟩ | ⟨-, empty⟩⟩
    · exact .inr ⟨_, has⟩
    · exact .inl empty

/-- The complaint about an argument with the types that its clause has for it. -/
def complaint? (known : Knowledge) (occurrence : Occurrence) : Option Issue :=
  occurrence.types?.bind (known.issue? occurrence.typing occurrence.argument)

theorem complaint?_eq {types : TypeSet} (htypes : occurrence.types? = some types) :
    known.complaint? occurrence =
      known.issue? occurrence.typing occurrence.argument types := by
  rw [complaint?, htypes, Option.bind_some]

/-- A complaint is made if it explains what is wrong. -/
theorem issue?_eq_some_iff {types : TypeSet} (htypes : occurrence.types? = some types)
    {issue : Issue} :
    known.issue? occurrence.typing occurrence.argument types = some issue ↔
      known.Explains occurrence issue := by
  rw [issue?_eq]
  cases hflaw : known.flaw? occurrence.argument with
  | some flaw =>
      have has := flaw?_eq_some_iff.mp hflaw
      constructor
      · intro h
        obtain rfl := Option.some.inj h
        exact .flaw has
      · rintro (⟨has'⟩ | ⟨flawless, -⟩)
        · obtain rfl := Option.some.inj (hflaw.symm.trans (flaw?_of_hasFlaw has'))
          rfl
        · exact absurd has (flawless flaw)
  | none =>
      have flawless := flaw?_eq_none_iff.mp hflaw
      constructor
      · intro h
        simp only [Option.map_none, Option.none_or, emptiness?] at h
        split at h
        · rename_i empty
          obtain rfl := Option.some.inj h
          exact .noType flawless (htypes.trans (congrArg some (TypeSet.isEmpty_iff.mp empty)))
        · cases h
      · rintro (⟨has⟩ | ⟨-, empty⟩)
        · exact absurd has (flawless _)
        · obtain rfl := Option.some.inj (htypes.symm.trans empty)
          rfl

end Knowledge

/-! ### The complaints about a program -/

/-- The typing of a solved clause has for an argument what the solution assigns to it. -/
theorem SolvedClause.get?_typing {one : SolvedClause} {argument : Node}
    (alone : ∀ other ∈ one.clause.arguments, other.id = argument.id → other = argument)
    (h : argument ∈ one.clause.arguments) :
    one.typing.get? argument.id = some (one.solution.assignment argument.typeVar) := by
  have found : (one.clause.arguments.find? fun other => other.id == argument.id).isSome :=
    List.find?_isSome.mpr ⟨argument, h, by simp⟩
  obtain ⟨other, hother⟩ := Option.isSome_iff_exists.mp found
  obtain rfl := alone other (List.mem_of_find?_eq_some hother)
    (by simpa using List.find?_some hother)
  simp only [ClauseTyping.get?, entries_typing, List.find?_map, Function.comp_def, hother,
    Option.map_some]

namespace Program

variable {context : Context} {program : Program} {resolutions : Resolutions}
  {solved : List SolvedClause} {occurrence : Occurrence}

theorem mem_occurrences :
    occurrence ∈ Occurrence.all (solved.map SolvedClause.typing) ↔
      ∃ one ∈ solved, occurrence.typing = one.typing ∧
        occurrence.argument ∈ one.clause.arguments := by
  constructor
  · intro h
    obtain ⟨typing, htyping, h⟩ := List.mem_flatMap.mp h
    obtain ⟨one, hone, rfl⟩ := List.mem_map.mp htyping
    obtain ⟨argument, hargument, rfl⟩ := List.mem_map.mp h
    exact ⟨one, hone, rfl, hargument⟩
  · obtain ⟨typing, argument⟩ := occurrence
    rintro ⟨one, hone, rfl, hargument⟩
    exact List.mem_flatMap.mpr ⟨one.typing, List.mem_map_of_mem hone,
      List.mem_map_of_mem hargument⟩

theorem get?_typing (identified : program.Identified)
    (hsolved : solveClauses context program resolutions program.clauses = (solved, none))
    {one : SolvedClause} (hone : one ∈ solved) {argument : Node}
    (hargument : argument ∈ one.clause.arguments) :
    one.typing.get? argument.id = some (one.solution.assignment argument.typeVar) := by
  have inProgram : ∀ other ∈ one.clause.arguments, other ∈ Node.nodesOf program.clauses :=
    fun other h => mem_nodesOf_of_solved hsolved hone (List.mem_filter.mp h).1
  exact SolvedClause.get?_typing
    (fun other hother => identified other (inProgram other hother) argument
      (inProgram argument hargument)) hargument

theorem types?_occurrence (identified : program.Identified)
    (hsolved : solveClauses context program resolutions program.clauses = (solved, none))
    (h : occurrence ∈ Occurrence.all (solved.map SolvedClause.typing)) :
    ∃ types, occurrence.types? = some types := by
  obtain ⟨one, hone, htyping, hargument⟩ := mem_occurrences.mp h
  rw [Occurrence.types?, htyping]
  exact ⟨_, get?_typing identified hsolved hone hargument⟩

theorem issues_eq (known : Knowledge) (identified : program.Identified)
    (hsolved : solveClauses context program resolutions program.clauses = (solved, none)) :
    known.issues (solved.map SolvedClause.typing) =
      (Occurrence.all (solved.map SolvedClause.typing)).filterMap known.complaint? := by
  have heach : ∀ one ∈ solved,
      (one.typing.entries.filterMap fun entry => known.issue? one.typing entry.1 entry.2) =
        (one.clause.arguments.map (Occurrence.mk one.typing)).filterMap known.complaint? := by
    intro one hone
    rw [SolvedClause.entries_typing, List.filterMap_map, List.filterMap_map]
    refine List.filterMap_congr fun argument hargument => ?_
    have htypes : Occurrence.types? ⟨one.typing, argument⟩ = _ :=
      get?_typing identified hsolved hone hargument
    exact (Knowledge.complaint?_eq htypes).symm
  rw [Knowledge.issues, Occurrence.all, List.filterMap_flatMap, List.flatMap_map, List.flatMap_map]
  exact List.flatMap_congr heach

/-- The complaints about the clauses of a program are about the arguments that offend, each
of them once. -/
theorem issues_explain (known : Knowledge) (identified : program.Identified)
    (hsolved : solveClauses context program resolutions program.clauses = (solved, none)) :
    List.Forall₂ known.Explains
      ((Occurrence.all (solved.map SolvedClause.typing)).filter known.Offends)
      (known.issues (solved.map SolvedClause.typing)) := by
  rw [issues_eq known identified hsolved]
  refine forall₂_filter_filterMap (fun _ => Knowledge.offends_iff) fun occurrence h issue => ?_
  obtain ⟨types, htypes⟩ := types?_occurrence identified hsolved h
  rw [Knowledge.complaint?_eq htypes]
  exact Knowledge.issue?_eq_some_iff htypes

/-- The operands of a functor are arguments once the program is settled: their kinds have
been asked for. -/
theorem IsSettled.operand_mem_arguments (settled : program.IsSettled context resolutions)
    (identified : program.Identified)
    (hsolved : solveClauses context program resolutions program.clauses = (solved, none))
    {one : SolvedClause} (hone : one ∈ solved) {node operand : Node}
    (hnode : node ∈ one.clause.arguments) {symbol : String} (hlabel : node.label = .functor symbol)
    (hoperand : operand ∈ node.children) : operand ∈ one.clause.arguments := by
  have hnode : node ∈ one.clause.nodes := (List.mem_filter.mp hnode).1
  have hmem := Node.child_mem_nodes hnode hoperand
  obtain ⟨overloads, hvalid, -⟩ :=
    (settled.isStable .functors (mem_nodesOf_of_solved hsolved hone hnode)).functor hlabel
  simp only [Knowledge.validOverloads, hlabel] at hvalid
  obtain ⟨operandKinds, hkinds, -⟩ := bind_eq_ok.mp hvalid
  obtain ⟨kinds, -, hkinds⟩ := exists_mem_of_forall₂ (forall₂_of_mapM_ok hkinds) hoperand
  exact List.mem_filter.mpr ⟨hmem,
    isArgument_of_kindsOf identified (mem_nodesOf_of_solved hsolved hone hmem) hkinds⟩

end Program

/-! ### Reports -/

namespace Report

variable (report : Report) {issue : Issue} {rest : List Issue} {limit : Nat}

/-- An issue that does not reach the limit is taken, and so are others after it. -/
theorem addAll_cons_of_room (room : report.limit ≠ some ((report.issues.length + 1 : Nat) : Int)) :
    report.addAll (issue :: rest) =
      addAll { report with issues := report.issues ++ [issue] } rest := by
  have goes : report.add issue = ({ report with issues := report.issues ++ [issue] }, none) := by
    simp only [add, List.length_append, List.length_singleton, if_neg room]
  rw [addAll, goes]

/-- The issue that reaches the limit is the last one taken. -/
theorem addAll_cons_of_full (full : report.limit = some ((report.issues.length + 1 : Nat) : Int)) :
    report.addAll (issue :: rest) =
      ({ report with issues := report.issues ++ [issue] }, some .tooManyIssues) := by
  have stops : report.add issue =
      ({ report with issues := report.issues ++ [issue] }, some .tooManyIssues) := by
    simp only [add, List.length_append, List.length_singleton, if_pos full]
  rw [addAll, stops]

theorem addAll_of_unlimited (unlimited : report.limit = none) (issues : List Issue) :
    report.addAll issues = ({ report with issues := report.issues ++ issues }, none) := by
  induction issues generalizing report with
  | nil => simp [addAll]
  | cons issue rest ih =>
      have others := ih { report with issues := report.issues ++ [issue] } unlimited
      rw [addAll_cons_of_room report (by simp [unlimited]), others, List.append_assoc,
        List.singleton_append]

/-- A report with a limit takes issues until it holds as many as the limit says. -/
theorem addAll_of_limit (limited : report.limit = some (limit : Int))
    (room : report.issues.length < limit) (issues : List Issue) :
    report.addAll issues =
      if (report.issues ++ issues).length < limit then
        ({ report with issues := report.issues ++ issues }, none)
      else
        ({ report with issues := (report.issues ++ issues).take limit }, some .tooManyIssues) := by
  induction issues generalizing report with
  | nil => simp [addAll, room]
  | cons issue rest ih =>
      by_cases last : limit = report.issues.length + 1
      · have full : ¬ (report.issues ++ issue :: rest).length < limit := by
          simp only [List.length_append, List.length_cons]
          omega
        rw [addAll_cons_of_full report (by rw [limited, last]), if_neg full, last,
          List.take_length_add_append, List.take_succ_cons, List.take_zero]
      · have more : (report.issues ++ [issue]).length < limit := by
          simp only [List.length_append, List.length_singleton]
          omega
        have room : report.limit ≠ some ((report.issues.length + 1 : Nat) : Int) := by
          rw [limited]
          exact fun h => last (Int.ofNat_inj.mp (Option.some.inj h))
        have others := ih { report with issues := report.issues ++ [issue] } limited more
        rw [addAll_cons_of_room report room, others, List.append_assoc, List.singleton_append]

end Report

/-! ### Checking a session -/

namespace Session

/-- What is wrong with a session. -/
def complaints (session : Session) : List Issue :=
  session.known.issues session.analysis.typings

/-- The arguments in the clauses of a session, in the order of the traversal. -/
def occurrences (session : Session) : List Occurrence :=
  Occurrence.all session.analysis.typings

/-- The arguments that offend. -/
def offenders (session : Session) : List Occurrence :=
  session.occurrences.filter session.known.Offends

end Session

namespace SessionM

variable {session after : Session} {count : Nat} {start report : Report}

theorem check_of_addAll {fault : Option Fault}
    (h : start.addAll session.complaints = (report, fault)) :
    check { session with report := start } =
      (fault.elim (.ok report.isOk) .error, { session with report }) := by
  have checked : start.check session.known session.analysis.typings =
      (report, fault.elim (.ok report.isOk) .error) := by
    rw [Report.check, show start.addAll (session.known.issues _) = _ from h]
    cases fault <;> rfl
  exact congrArg (fun result => (result.2, { session with report := result.1 })) checked

/-- A report without a limit takes all complaints. -/
theorem check_unlimited (session : Session) (verbose : Int) :
    check { session with report := { verbose } } =
      (.ok session.complaints.isEmpty,
        { session with report := { verbose, issues := session.complaints } }) :=
  check_of_addAll (Report.addAll_of_unlimited { verbose } rfl session.complaints)

/-- What a session holds once its analysis has returned. -/
theorem of_analyse (returns : analyse session = (.ok count, after)) :
    after.program = session.program ∧
    after.program.IsSettled after.context after.analysis.resolutions ∧
    ∃ solved, solveClauses after.context after.program after.analysis.resolutions
        after.program.clauses = (solved, none) ∧
      after.analysis.typings = solved.map SolvedClause.typing := by
  obtain ⟨hfault, -, out, rfl⟩ := analyse_returns returns
  obtain ⟨rounds, -, ends⟩ := Analysis.run_returns hfault
  obtain ⟨solved, hsolved, recorded⟩ := ends.final.recorded
  exact ⟨rfl, ends.final.settled, solved, hsolved, (congrArg Analysis.typings recorded).symm⟩

/-- Once the analysis of a session has returned, its check, with a new report that has no limit,
goes through all arguments of all clauses. Each argument has a set of types then, and so have
the operands of functors. The report gets one issue for each argument that offends, in the
order of the traversal, and no others. Each issue says what is wrong with its argument: that it
has no type is said only of those that have no flaw. The check says whether no argument
offends. -/
theorem check_of_analyse (identified : session.program.Identified)
    (returns : analyse session = (.ok count, after)) (verbose : Int) :
    after.analysis.typings.map ClauseTyping.clause = session.program.clauses ∧
    (∀ occurrence ∈ after.occurrences, occurrence.types?.isSome ∧
      ∀ symbol, occurrence.argument.label = .functor symbol →
        ∀ operand ∈ occurrence.argument.children, (occurrence.typing.get? operand.id).isSome) ∧
    ∃ ok issues, check { after with report := { verbose } } =
        (.ok ok, { after with report := { verbose, issues } }) ∧
      List.Forall₂ after.known.Explains after.offenders issues ∧
      (ok = true ↔ ∀ occurrence ∈ after.occurrences, ¬ after.known.Offends occurrence) := by
  obtain ⟨hprogram, settled, solved, hsolved, htypings⟩ := of_analyse returns
  rw [← hprogram] at identified ⊢
  have explained := Program.issues_explain after.known identified hsolved
  rw [← htypings] at explained
  refine ⟨?_, fun occurrence h => ?_, _, _, check_unlimited after verbose, explained, ?_⟩
  · rw [← solveClauses_clauses hsolved, htypings, List.map_map]
    rfl
  · rw [Session.occurrences, htypings] at h
    obtain ⟨one, hone, htyping, hargument⟩ := Program.mem_occurrences.mp h
    have covered : ∀ argument ∈ one.clause.arguments,
        (occurrence.typing.get? argument.id).isSome := by
      intro argument hargument
      rw [htyping, Program.get?_typing identified hsolved hone hargument]
      rfl
    refine ⟨covered _ hargument, fun symbol hlabel operand hoperand => covered _ ?_⟩
    exact settled.operand_mem_arguments identified hsolved hone hargument hlabel hoperand
  · have none : after.complaints = [] ↔ after.offenders = [] := by
      rw [← List.length_eq_zero_iff, ← List.length_eq_zero_iff]
      exact iff_of_eq (congrArg (· = 0) explained.length_eq.symm)
    rw [List.isEmpty_iff, none, Session.offenders, List.filter_eq_nil_iff]
    simp only [decide_eq_true_eq]

/-- The clauses `n("oops"). n(strlen(X)) :- n(X). s(7). n(@missing(X)) :- n(X).
n(@shoddy(X)) :- n(X). n(as(X,nope)) :- n(X).` for a relation `n` of numbers, a relation `s` of
symbols and a functor `shoddy` of a type that is not declared. -/
def brokenProgram : Program where
  relations := [
    .mk 0 none (.relationDecl "n") [.mk 1 none (.field "x" "number") []],
    .mk 2 none (.relationDecl "s") [.mk 3 none (.field "x" "symbol") []]]
  functors := [.mk 4 none (.functorDecl "shoddy" false) [
    .mk 5 none (.field "a" "nope") [], .mk 6 none (.field "r" "number") []]]
  clauses := [
    .mk 7 none .clause [.mk 8 none (.atom "n") [.mk 9 none (.string "oops") []]],
    .mk 10 none .clause [
      .mk 11 none (.atom "n") [.mk 12 none (.functor "strlen") [.mk 13 none (.var "X") []]],
      .mk 14 none (.atom "n") [.mk 15 none (.var "X") []]],
    .mk 16 none .clause [.mk 17 none (.atom "s") [.mk 18 none (.numeral "7" none) []]],
    .mk 19 none .clause [
      .mk 20 none (.atom "n") [.mk 21 none (.call "missing") [.mk 22 none (.var "X") []]],
      .mk 23 none (.atom "n") [.mk 24 none (.var "X") []]],
    .mk 25 none .clause [
      .mk 26 none (.atom "n") [.mk 27 none (.call "shoddy") [.mk 28 none (.var "X") []]],
      .mk 29 none (.atom "n") [.mk 30 none (.var "X") []]],
    .mk 31 none .clause [
      .mk 32 none (.atom "n") [.mk 33 none (.cast "nope") [.mk 34 none (.var "X") []]],
      .mk 35 none (.atom "n") [.mk 36 none (.var "X") []]]]

def brokenSession : Session where
  program := brokenProgram
  context := ⟨.builtIn, [], brokenProgram.signatures⟩
  options := {}
  report := {}
  files := {}
  next := 37

/-- There is one issue for each clause, and none is about a variable. -/
theorem check_of_analyse_brokenSession :
    Session.new brokenProgram {} none {} [] 37 = .ok brokenSession ∧
    ∃ after issues, analyse brokenSession = (.ok 2, after) ∧
      after.offenders.map (·.argument.id) = [9, 12, 18, 21, 27, 33] ∧
      check { after with report := {} } = (.ok false, { after with report := { issues } }) ∧
      issues.length = 6 := by
  have returns : (begun brokenSession).fault = none ∧
      (begun brokenSession).analysis.iterations = 2 ∧
      (concluded brokenSession).offenders.map (·.argument.id) = [9, 12, 18, 21, 27, 33] := by
    decide +kernel
  obtain ⟨hfault, hcount, offending⟩ := returns
  obtain ⟨out, hanalyse⟩ := analyse_eq_ok hfault fun h => (by cases h)
  have same : ∀ session, ({ concluded session with out } : Session).offenders =
      (concluded session).offenders := fun _ => rfl
  rw [hcount] at hanalyse
  rw [← same] at offending
  have identified : brokenProgram.Identified := Program.identified_of_nodup (by decide)
  obtain ⟨-, -, ok, issues, hcheck, explained, hok⟩ := check_of_analyse identified hanalyse 0
  generalize ({ concluded brokenSession with out } : Session) = after at *
  have number : issues.length = 6 := by
    rw [← explained.length_eq]
    simpa using congrArg List.length offending
  obtain rfl : ok = false := by
    rw [← Bool.not_eq_true, hok]
    intro none
    have empty : after.offenders = [] :=
      List.filter_eq_nil_iff.mpr fun occurrence h => by simpa using none occurrence h
    rw [empty] at offending
    cases offending
  exact ⟨rfl, after, issues, hanalyse, offending, hcheck, number⟩

/-- A limit cuts the issues off and changes nothing else. If a report without a limit ends up
with fewer issues than the limit, a report with the limit ends up with the same ones, and the
check says the same. Otherwise the check fails, and the report holds as many of the first
issues as the limit says. -/
theorem check_limited (session : Session) (verbose : Int) {limit : Nat} (positive : 1 ≤ limit) :
    ∃ ok issues, check { session with report := { verbose } } =
        (.ok ok, { session with report := { verbose, issues } }) ∧
      (issues.length < limit →
        check { session with report := { verbose, limit := some (limit : Int) } } =
          (.ok ok, { session with report := { verbose, limit := some (limit : Int), issues } })) ∧
      (limit ≤ issues.length →
        check { session with report := { verbose, limit := some (limit : Int) } } =
          (.error .tooManyIssues, { session with report :=
            { verbose, limit := some (limit : Int), issues := issues.take limit } })) := by
  have added := Report.addAll_of_limit { verbose, limit := some (limit : Int) } rfl positive
    session.complaints
  refine ⟨_, _, check_unlimited session verbose, fun fewer => ?_, fun enough => ?_⟩
  · rw [List.nil_append, if_pos fewer] at added
    exact check_of_addAll added
  · rw [List.nil_append, if_neg enough.not_gt] at added
    exact check_of_addAll added

/-- Of the six issues of the broken program, two are left if the limit is two. -/
theorem check_limited_brokenSession :
    ∃ ok issues, check { concluded brokenSession with report := {} } =
        (.ok ok, { concluded brokenSession with report := { issues } }) ∧
      issues.length = 6 ∧
      check { concluded brokenSession with report := { limit := some 2 } } =
        (.error .tooManyIssues, { concluded brokenSession with
          report := { limit := some 2, issues := issues.take 2 } }) ∧
      check { concluded brokenSession with report := { limit := some 7 } } =
        (.ok ok, { concluded brokenSession with report := { limit := some 7, issues } }) := by
  have number : (concluded brokenSession).complaints.length = 6 := by decide +kernel
  generalize concluded brokenSession = session at number ⊢
  have all : ∀ {ok issues}, check { session with report := {} } =
      (.ok ok, { session with report := { issues } }) →
        ok = session.complaints.isEmpty ∧ issues = session.complaints := by
    intro ok issues h
    obtain ⟨hok, hsession⟩ := Prod.mk.inj (h.symm.trans (check_unlimited session 0))
    exact ⟨Except.ok.inj hok, congrArg (·.report.issues) hsession⟩
  obtain ⟨_, _, two, -, cut⟩ := check_limited session 0 (show 1 ≤ 2 by decide)
  obtain ⟨_, _, seven, kept, -⟩ := check_limited session 0 (show 1 ≤ 7 by decide)
  obtain ⟨rfl, rfl⟩ := all two
  obtain ⟨rfl, rfl⟩ := all seven
  exact ⟨_, _, two, number, cut (by omega), kept (by omega)⟩

end SessionM

end DatalogTyping
