import NullabilityCasts.Proofs.CastPass.Placement
import NullabilityCasts.Proofs.ClassTable.Strictness
import NullabilityCasts.Proofs.Conversion.Record

/-!
# Strict and lossy runs

A strict run of the cast pass is the lossy run up to the first gap that the lossy run logs. It fails
there, with the calls and the log of the lossy run up to that point.
-/

set_option autoImplicit false

namespace NullabilityCasts

def Event.gap? : Event → Option ArityGap
  | arityIgnored gap => some gap
  | _ => none

def gapsIn (log : List Event) : List ArityGap := log.filterMap Event.gap?

theorem gapsIn_append (log more : List Event) : gapsIn (log ++ more) = gapsIn log ++ gapsIn more :=
  List.filterMap_append

def Call.refused (call : Call) (e : Error) : Call := { call with reply := .error e }

def ArityGap.error (gap : ArityGap) : Error := .internal (.arityMismatch gap)

namespace CastPass

section Policy

variable {ct : ClassTable}

theorem insertCast_of_gaps {inferred target : Ty} {e : Expr} {needed : Bool}
    {gaps : List ArityGap} (projected : ct.project inferred = .ok target)
    (answered : (ct.castNeeded .lossy e.ty target).run [] = .ok (needed, gaps)) (actual : Ty)
    (tally : Tally) :
    ∃ e' tally' added, insertCast ct .lossy inferred actual e tally = (.ok e', tally') ∧
      tally'.log = tally.log ++ (gaps.map .arityIgnored ++ added) ∧ gapsIn added = [] := by
  simp only [insertCast, projected, answered]
  cases needed with
  | true => exact ⟨_, _, [.castInserted e.span e.ty target e], rfl, List.append_assoc _ _ _, rfl⟩
  | false => exact ⟨_, _, [], rfl, by rw [List.append_nil], rfl⟩

/-- What the strict handler answers where the lossy one has answered: the same if no gap came up,
and else a refusal that leaves the tally as it was. -/
inductive Halts (tally : Tally) (lossy strict : Except Error Expr × Tally) : Prop
  | same (added : List Event) (quiet : gapsIn added = [])
      (logged : lossy.2.log = tally.log ++ added) (agree : strict = lossy)
  | refused (gap : ArityGap) (e : Expr) (tally' : Tally) (added : List Event)
      (accepted : lossy = (.ok e, tally'))
      (logged : tally'.log = tally.log ++ .arityIgnored gap :: added)
      (refused : strict = (.error gap.error, tally))

theorem Halts.unchanged {tally : Tally} {answer : Except Error Expr} :
    Halts tally (answer, tally) (answer, tally) :=
  .same [] rfl (List.append_nil _).symm rfl

theorem halts_insertCast (inferred actual : Ty) (e : Expr) (tally : Tally) :
    Halts tally (insertCast ct .lossy inferred actual e tally)
      (insertCast ct .strict inferred actual e tally) := by
  cases projected : ct.project inferred with
  | error v =>
    rw [insertCast_of_unprojected projected, insertCast_of_unprojected projected]
    exact .unchanged
  | ok target =>
    have decided := ct.castNeeded_strict e.ty target
    cases answered : (ct.castNeeded .lossy e.ty target).run [] with
    | error v =>
      rw [answered] at decided
      rw [insertCast_of_unanswered projected answered, insertCast_of_unanswered projected decided]
      exact .unchanged
    | ok answer =>
      obtain ⟨needed, noted⟩ := answer
      rw [answered] at decided
      obtain ⟨e', tally', added, lossy, logged, quiet⟩ :=
        insertCast_of_gaps projected answered actual tally
      cases noted with
      | nil =>
        have same : (ct.castNeeded .strict e.ty target).run [] = .ok (needed, []) := decided
        refine .same added quiet ?_ ?_
        · rw [lossy]
          exact logged
        · simp only [insertCast, projected, answered, same]
      | cons gap rest =>
        have stopped : (ct.castNeeded .strict e.ty target).run [] = .error (.arityMismatch gap) :=
          decided
        exact .refused gap e' tally' _ lossy logged
          (insertCast_of_unanswered projected stopped actual tally)

variable (ct) in
theorem halts_handle (kind : ConversionKind) (inferred actual : Ty) (e : Expr) (tally : Tally) :
    Halts tally ((policy ct .lossy).handle kind inferred actual e tally)
      ((policy ct .strict).handle kind inferred actual e tally) := by
  cases takes : kind.takesCast with
  | true =>
    rw [handle_takes takes, handle_takes takes]
    exact halts_insertCast inferred actual e tally
  | false =>
    rw [handle_keeps takes, handle_keeps takes]
    exact .unchanged

theorem makes_strict {earlier : List Call} {tally tally' : Tally} {place : Place} {e : Expr}
    {call : Call} (makes : (policy ct .lossy).Makes earlier tally place e call tally') :
    (∃ added, gapsIn added = [] ∧ tally'.log = tally.log ++ added ∧
      (policy ct .strict).Makes earlier tally place e call tally') ∨
    ∃ gap added, tally'.log = tally.log ++ .arityIgnored gap :: added ∧
      (∃ e', call.reply = .ok e') ∧
      (policy ct .strict).Makes earlier tally place e (call.refused gap.error) tally := by
  have halts := halts_handle ct place.kind call.conversion.inferred e.ty call.handed tally
  rw [makes.answer] at halts
  cases halts with
  | same added quiet logged agree =>
    exact .inl ⟨added, quiet, logged, makes.expects, makes.conversion, makes.handed, agree⟩
  | refused gap e' tally'' added accepted logged refused =>
    obtain ⟨replied, rfl⟩ := Prod.mk.inj accepted
    exact .inr ⟨gap, added, logged, ⟨e', replied⟩, makes.expects, makes.conversion, makes.handed,
      refused⟩

theorem log_of_makes {earlier : List Call} {tally tally' : Tally} {place : Place} {e : Expr}
    {call : Call} (makes : (policy ct .lossy).Makes earlier tally place e call tally') :
    tally.log <+: tally'.log := by
  rcases makes_strict makes with ⟨added, _, logged, _⟩ | ⟨gap, added, logged, _⟩
  · exact ⟨added, logged.symm⟩
  · exact ⟨_, logged.symm⟩

theorem log_follow (earlier : List Call) (tally : Tally) (stops : List Stop) :
    tally.log <+: ((policy ct .lossy).follow earlier tally stops).memory.log := by
  refine (policy ct .lossy).follow_induction (motive := fun _ tally _ a =>
    tally.log <+: a.memory.log) ?nil ?violation ?refused ?accepted earlier tally stops
  case nil => exact fun _ _ => List.prefix_refl _
  case violation => exact fun _ _ _ _ _ _ => List.prefix_refl _
  case refused =>
    intro earlier tally place e rest call tally' err makes replied
    exact log_of_makes makes
  case accepted =>
    intro earlier tally place e rest call tally' e' makes replied ih
    exact (log_of_makes makes).trans ih

/-- What comes of the strict policy where the lossy one, from the same log, has made an account. -/
inductive InStep (log : List Event) (lossy strict : Account Tally) : Prop
  | same (added : List Event) (quiet : gapsIn added = [])
      (logged : lossy.memory.log = log ++ added) (agree : strict = lossy)
  | stopped (gap : ArityGap) (before after : List Event) (kept later : List Call) (call : Call)
      (quiet : gapsIn before = [])
      (logged : lossy.memory.log = (log ++ before) ++ .arityIgnored gap :: after)
      (made : lossy.calls = kept ++ call :: later)
      (refused : strict.calls = kept ++ [call.refused gap.error])
      (failed : strict.failure = some gap.error)
      (silent : strict.memory.log = log ++ before)

theorem InStep.after {log added : List Event} {lossy strict : Account Tally} (call : Call)
    (quiet : gapsIn added = []) (later : InStep (log ++ added) lossy strict) :
    InStep log (lossy.after [call]) (strict.after [call]) := by
  cases later with
  | same more quiet' logged agree =>
    refine .same (added ++ more) ?_ ?_ (congrArg _ agree)
    · rw [gapsIn_append, quiet, quiet', List.append_nil]
    · exact logged.trans (List.append_assoc _ _ _)
  | stopped gap before after kept rest last quiet' logged made refused failed silent =>
    refine .stopped gap (added ++ before) after (call :: kept) rest last ?_ ?_ ?_ ?_ failed ?_
    · rw [gapsIn_append, quiet, quiet', List.append_nil]
    · rw [← List.append_assoc log]
      exact logged
    · exact congrArg (call :: ·) made
    · exact congrArg (call :: ·) refused
    · exact silent.trans (List.append_assoc _ _ _)

theorem inStep_follow (earlier : List Call) (tally : Tally) (stops : List Stop) :
    InStep tally.log ((policy ct .lossy).follow earlier tally stops)
      ((policy ct .strict).follow earlier tally stops) := by
  refine (policy ct .lossy).follow_induction (motive := fun earlier tally stops a =>
    InStep tally.log a ((policy ct .strict).follow earlier tally stops)) ?nil ?violation ?refused
    ?accepted earlier tally stops
  case nil => exact fun _ _ => .same [] rfl (List.append_nil _).symm rfl
  case violation =>
    intro earlier tally stop rest v found
    exact .same [] rfl (List.append_nil _).symm (Policy.follow_of_violation found rest)
  case refused =>
    intro earlier tally place e rest call tally' err makes replied
    rcases makes_strict makes with ⟨added, quiet, logged, same⟩ | ⟨_, _, _, ⟨e', accepted⟩, _⟩
    · exact .same added quiet logged (Policy.follow_of_refused same replied rest)
    · rw [replied] at accepted
      cases accepted
  case accepted =>
    intro earlier tally place e rest call tally' e' makes replied ih
    rcases makes_strict makes with ⟨added, quiet, logged, same⟩ | ⟨gap, added, logged, _, stopped⟩
    · rw [Policy.follow_of_accepted same replied]
      rw [logged] at ih
      exact ih.after call quiet
    · -- Whatever the lossy policy goes on to do, it has logged the gap.
      have grows : tally'.log <+:
          ((policy ct .lossy).follow (earlier ++ [call]) tally' rest).memory.log :=
        log_follow _ tally' rest
      obtain ⟨more, grown⟩ := grows
      rw [Policy.follow_of_refused stopped rfl]
      refine .stopped gap [] (added ++ more) [] _ call rfl ?_ rfl rfl rfl (List.append_nil _).symm
      rw [List.append_nil]
      refine grown.symm.trans ?_
      rw [logged, List.append_assoc]
      rfl

end Policy

def account (strictness : Strictness) (u : SourceUnit) : Account Tally :=
  u.account (policy u.types.table strictness) ⟨0, []⟩

def calls (strictness : Strictness) (u : SourceUnit) : List Call :=
  u.calls (policy u.types.table strictness) ⟨0, []⟩

theorem calls_eq (strictness : Strictness) (u : SourceUnit) :
    calls strictness u = (account strictness u).calls :=
  u.calls_eq _ _

theorem run_of_account (strictness : Strictness) (u : SourceUnit) :
    run strictness u = match (account strictness u).failure with
      | some e => ⟨u.filled (account strictness u).contents, some e,
          (account strictness u).memory.log⟩
      | none => ⟨u.filled (account strictness u).contents, none,
          (account strictness u).memory.log
            ++ [.castsCounted name (account strictness u).memory.inserted u.path]⟩ :=
  run_of_walk (u.walk_eq_follow _ _)

theorem failure_run (strictness : Strictness) (u : SourceUnit) :
    (run strictness u).failure = (account strictness u).failure := by
  rw [run_of_account]
  cases (account strictness u).failure <;> rfl

theorem unit_run (strictness : Strictness) (u : SourceUnit) :
    (run strictness u).unit = u.filled ((calls strictness u).map Call.left) := by
  rw [run_of_account, calls_eq]
  cases (account strictness u).failure <;> rfl

theorem log_run (strictness : Strictness) (u : SourceUnit) :
    ∃ last, gapsIn last = [] ∧
      (run strictness u).log = (account strictness u).memory.log ++ last := by
  rw [run_of_account]
  cases (account strictness u).failure with
  | some e => exact ⟨[], rfl, (List.append_nil _).symm⟩
  | none => exact ⟨_, rfl, rfl⟩

theorem log_run_of_failure {strictness : Strictness} {u : SourceUnit} {e : Error}
    (failed : (account strictness u).failure = some e) :
    (run strictness u).log = (account strictness u).memory.log := by
  rw [run_of_account, failed]

/-- The strict run fails with the gap. What it has done before is what the lossy run has done before
it logged the gap. -/
structure StopsAt (gap : ArityGap) (u : SourceUnit) : Prop where
  failed : (run .strict u).failure = some gap.error
  logged : ∃ after, (run .lossy u).log = (run .strict u).log ++ .arityIgnored gap :: after
  quiet : gapsIn (run .strict u).log = []
  left : ∃ kept call later, calls .lossy u = kept ++ call :: later ∧
    calls .strict u = kept ++ [call.refused gap.error] ∧
    (run .lossy u).unit = u.filled (kept.map Call.left ++ call.left :: later.map Call.left) ∧
    (run .strict u).unit = u.filled (kept.map Call.left ++ [.placeholder])

theorem run_same_or_stopsAt (u : SourceUnit) :
    (gapsIn (run .lossy u).log = [] ∧ run .strict u = run .lossy u) ∨
    ∃ gap more, gapsIn (run .lossy u).log = gap :: more ∧ StopsAt gap u := by
  obtain ⟨last, counts, ended⟩ := log_run .lossy u
  have inStep : InStep [] (account .lossy u) (account .strict u) :=
    inStep_follow [] ⟨0, []⟩ u.stops
  cases inStep with
  | same added quiet logged agree =>
    refine .inl ⟨?_, ?_⟩
    · rw [ended, logged, List.nil_append, gapsIn_append, quiet, counts, List.append_nil]
    · rw [run_of_account, run_of_account, agree]
  | stopped gap before after kept later call quiet logged made refused failed silent =>
    have log : (run .strict u).log = before := (log_run_of_failure failed).trans silent
    have grown : (run .lossy u).log = before ++ .arityIgnored gap :: (after ++ last) := by
      rw [ended, logged, List.nil_append, List.append_assoc, List.cons_append]
    have lossy : calls .lossy u = kept ++ call :: later := (calls_eq _ u).trans made
    have strict : calls .strict u = kept ++ [call.refused gap.error] := (calls_eq _ u).trans refused
    refine .inr ⟨gap, gapsIn (after ++ last), ?_, ?_, ?_, ?_, kept, call, later, lossy, strict,
      ?_, ?_⟩
    · rw [grown, gapsIn_append, quiet]
      rfl
    · rw [failure_run, failed]
    · exact ⟨after ++ last, by rw [log, grown]⟩
    · rw [log, quiet]
    · rw [unit_run, lossy, List.map_append, List.map_cons]
    · rw [unit_run, strict, List.map_append]
      rfl

/-- A strict run is the lossy run, if that logs no gap, and else the lossy run stopped at the first
gap that it logs. -/
theorem run_strict_until_gap (u : SourceUnit) :
    (gapsIn (run .lossy u).log = [] → run .strict u = run .lossy u) ∧
    (∀ gap more, gapsIn (run .lossy u).log = gap :: more → StopsAt gap u) ∧
    ((run .strict u).failure = none → run .lossy u = run .strict u) ∧
    ((run .lossy u).failure.isSome → (run .strict u).failure.isSome) := by
  rcases run_same_or_stopsAt u with ⟨quiet, same⟩ | ⟨gap, more, gaps, stops⟩
  · refine ⟨fun _ => same, ?_, fun _ => same.symm, ?_⟩
    · intro gap more gaps
      rw [quiet] at gaps
      cases gaps
    · rw [same]
      exact id
  · refine ⟨?_, ?_, ?_, ?_⟩
    · intro quiet
      rw [quiet] at gaps
      cases gaps
    · intro gap' more' gaps'
      obtain ⟨rfl, _⟩ := List.cons_eq_cons.mp (gaps.symm.trans gaps')
      exact stops
    · intro succeeds
      rw [stops.failed] at succeeds
      cases succeeds
    · intro _
      rw [stops.failed]
      rfl

end CastPass

namespace Sample

def list (args : List Ty) : Ty :=
  .declared ⟨3, "java.util.List", false, [⟨2, "E", .parameter, false⟩]⟩ false args

/-- The field between the others is set from a list with an argument too many. -/
def catalog : SourceUnit := unit
  [.field ⟨⟨"name"⟩, str false, false⟩ (some (use "alias" (str true))),
    .field ⟨⟨"entries"⟩, list [str false], false⟩ (some (use "rows" (list [str false, str true]))),
    .field ⟨⟨"owner"⟩, str false, false⟩ (some (use "alias" (str true)))]

end Sample

open Sample in
theorem CastPass.run_strict_until_gap_catalog :
    (gapsIn (run .lossy greeter).log = [] ∧ run .strict greeter = run .lossy greeter) ∧
    (gapsIn (run .lossy catalog).log = [⟨list [str false, str true], list [str false], 2, 1⟩] ∧
      StopsAt ⟨list [str false, str true], list [str false], 2, 1⟩ catalog) ∧
    ((run .strict greeter).failure = none ∧ run .lossy greeter = run .strict greeter) ∧
    ((run .lossy choice).failure.isSome ∧ (run .strict choice).failure.isSome) := by
  have quiet : gapsIn (run .lossy greeter).log = [] := by cbv
  have gaps : gapsIn (run .lossy catalog).log
      = [⟨list [str false, str true], list [str false], 2, 1⟩] := by cbv
  have succeeds : (run .strict greeter).failure = none := by cbv
  have fails : (run .lossy choice).failure.isSome := by cbv
  exact ⟨⟨quiet, (run_strict_until_gap greeter).1 quiet⟩,
    ⟨gaps, (run_strict_until_gap catalog).2.1 _ _ gaps⟩,
    ⟨succeeds, (run_strict_until_gap greeter).2.2.1 succeeds⟩,
    ⟨fails, (run_strict_until_gap choice).2.2.2 fails⟩⟩

end NullabilityCasts
