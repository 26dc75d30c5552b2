import LispBuiltins.Proofs.ReportLine

namespace LispBuiltins

def Json.member? (key : String) : Json → Option Json
  | object members => members.lookup key
  | _              => none

namespace Report

variable {r : Report} {name : String} {args : List Value}

theorem member?_output (r : Report) :
    r.json.member? "output" = if r.output = "" then none else some (.string r.output) := by
  by_cases h : r.output = "" <;> cases ho : r.outcome <;>
    simp [json, Json.member?, outcomeMember, List.lookup_cons, h, ho]

-- A report has a result or an error, and never both.
theorem member?_ok (h : r.outcome = .ok v) :
    r.json.member? "result" = some v.json ∧ r.json.member? "error" = none := by
  by_cases ho : r.output = "" <;> simp [json, Json.member?, outcomeMember, List.lookup_cons, h, ho]

theorem member?_error (h : r.outcome = .error e) :
    r.json.member? "result" = none ∧
    r.json.member? "error" =
      some (.object [("kind", .string e.name), ("message", .string e.message)]) := by
  by_cases ho : r.output = "" <;> simp [json, Json.member?, outcomeMember, List.lookup_cons, h, ho]

-- A line that was printed is never empty, so a report cannot leave it out.
theorem member?_output_ok (h : Builtin.outcomeNamed name args = .ok v) :
    (ofCall name args).json.member? "output" =
      if Builtin.ofName? name = some .println then some (.string (v.render ++ "\n")) else none := by
  simp only [member?_output]
  cases hp : Builtin.printedNamed? name args
  case none => simp [ofCall_silent hp, Builtin.ofName?_ne_println hp h]
  case some =>
    cases (Builtin.outcomeNamed_eq_ok hp).symm.trans h
    simp [ofCall_print hp, (Builtin.printedNamed?_eq_some_iff.mp hp).left]

theorem member?_output_error (h : Builtin.outcomeNamed name args = .error e) :
    (ofCall name args).json.member? "output" = none := by
  simp only [member?_output]
  cases hp : Builtin.printedNamed? name args
  case none => simp [ofCall_silent hp]
  case some => cases (Builtin.outcomeNamed_eq_ok hp).symm.trans h

end Report

-- Without colours, a diagnostic starts with the kind of error and the message.
theorem Diagnostic.render_plain (h : p.color = false) (d : Diagnostic) :
    ∃ rest, d.render p = d.kind ++ ": " ++ d.message ++ "\n" ++ rest :=
  ⟨(d.advice.map (Advice.render p)).getD "", by simp [render, Palette.paint, h]⟩

namespace Invocation

-- The two ways to report a call differ only in form.
theorem run_json_agrees (p : Palette) (name : String) (tokens : List String) (noColor : Bool) :
    let value : Value → Json
      | .integer n   => .number n.toInt
      | .string text => .string text
      | .nil         => .null
    let i : Invocation    := { builtin := name, args := tokens, noColor }
    let (plain, out)      := (i.run p).run Sink.unbounded
    let (json, reportOut) := ({ i with json := true }.run p).run Sink.unbounded
    json.code = plain.code ∧
    ((∃ t ∈ tokens, ∃ e, Literal.decode t = .error e) →
      out.bytes = [] ∧ reportOut.bytes = [] ∧ json.stderr = plain.stderr) ∧
    ∀ args, Literal.decodeAll tokens = .ok args →
      ∃ text report,
        reportOut.bytes = Utf8.encode text ++ [0x0A] ∧ Json.read? text = some report ∧
        json.stderr = "" ∧
        match Builtin.outcomeNamed name args with
        | .ok v =>
          out.bytes = Utf8.encode (v.render ++ "\n") ∧ plain.stderr = "" ∧
          report.member? "result" = some (value v) ∧ report.member? "error" = none ∧
          report.member? "output" =
            if Builtin.ofName? name = some .println then some (.string (v.render ++ "\n"))
            else none
        | .error e =>
          out.bytes = [] ∧
          (p.color = false → ∃ rest, plain.stderr = e.name ++ ": " ++ e.message ++ "\n" ++ rest) ∧
          report.member? "error" =
            some (.object [("kind", .string e.name), ("message", .string e.message)]) ∧
          report.member? "result" = none ∧ report.member? "output" = none := by
  intro value i
  have hv : value = Value.json := Value.json_eq.symm
  cases hd : Literal.decodeAll tokens
  case error e =>
    have ⟨out, hr, hb⟩ := (ends_undecoded (p := p) (i := i) rfl rfl hd).run_eq
    have ⟨reportOut, hr', hb'⟩ :=
      (ends_undecoded (p := p) (i := { i with json := true }) rfl rfl hd).run_eq
    simp only [hr, hr']
    exact ⟨trivial, fun _ => ⟨hb, hb', trivial⟩, nofun⟩
  case ok args =>
    have hi : i.AsksFor name args := ⟨rfl, rfl, hd⟩
    have hj : { i with json := true }.AsksFor name args := ⟨rfl, rfl, hd⟩
    have ⟨reportOut, hr', hb'⟩ := (hj.ends_json (p := p) rfl).run_eq
    have ⟨text, ht, _, hs⟩ := exists_reportLine_eq name args
    have hb' := hb'.trans ht
    have hn : ¬∃ t ∈ tokens, ∃ e, Literal.decode t = .error e := by
      rintro ⟨t, ht, e, he⟩
      have ⟨v, hv⟩ := Literal.decodeAll_ok hd ht
      cases hv.symm.trans he
    cases ho : Builtin.outcomeNamed name args
    case ok v =>
      have ⟨out, hr, hb⟩ := (hi.ends_plain_ok (p := p) rfl ho).run_eq
      have ⟨hm, he⟩ := Report.member?_ok (r := .ofCall name args) ho
      rw [hr, hr', ho]
      refine ⟨rfl, fun h => absurd h hn, ?_⟩
      rintro _ ⟨⟩
      refine ⟨text, _, hb', hs, rfl, ?_⟩
      simp only [ho]
      exact ⟨hb, rfl, hv ▸ hm, he, Report.member?_output_ok ho⟩
    case error e =>
      have ⟨out, hr, hb⟩ := (hi.ends_plain_error (p := p) rfl ho).run_eq
      have ⟨hm, he⟩ := Report.member?_error (r := .ofCall name args) ho
      rw [hr, hr', ho]
      refine ⟨rfl, fun h => absurd h hn, ?_⟩
      rintro _ ⟨⟩
      refine ⟨text, _, hb', hs, rfl, ?_⟩
      simp only [ho]
      exact ⟨hb, (e.diagnostic.render_plain ·), he, hm, Report.member?_output_error ho⟩

end Invocation
end LispBuiltins
