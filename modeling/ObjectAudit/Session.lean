/-
ObjectAudit/Session.lean

A session: one model and one auditor, changed by steps.  A step that fails changes nothing.
Each finished audit is written out.  Settings that cannot be gone through at all end the
session, and then no step has an answer.
-/
import ObjectAudit.Audit
import ObjectAudit.Report.Plain
import ObjectAudit.Report.Record
import ObjectAudit.Settings.Reader
import ObjectAudit.Snapshot.Reader

namespace ObjectAudit

inductive SessionStyle where
  | json
  | plain
deriving DecidableEq, Repr

def SessionStyle.print (report : Report) : SessionStyle → Json.Printout
  | json => report.print .oneLine
  | plain => ⟨report.plainText.toList, none⟩

/-- What a session holds. -/
structure Session where
  model : Model := .empty
  auditor : Auditor := .standard
deriving DecidableEq, Repr

/-- A step of a session. -/
inductive SessionStep where
  | load (snapshot : Json)
  | configure (settings : Json)
  | audit (cancel : Cancellation)
  | classOf (name : String)
  | edgeOf (source accessor : String)

/-- The answer to a step. -/
inductive SessionAnswer where
  | loaded (model : Model)
  | configured (auditor : Auditor)
  | audited (report : Report)
  | classFound (decl : Option ClassDecl)
  | edgeFound (edge : Option Association)
deriving DecidableEq, Repr

inductive SessionFault where
  | snapshot (fault : Snapshot.Fault)
  | settings (fault : SettingsFault)
  | audit (fault : AuditFault)
  | print (fault : Json.PrintFault)
deriving DecidableEq, Repr

/-- Does a fault end the session? -/
def SessionFault.endsSession : SessionFault → Bool
  | settings .unusable => true
  | _ => false

namespace Session

/-- The answer to a step, and the session behind it. -/
def take (session : Session) : SessionStep → Except SessionFault (SessionAnswer × Session)
  | .load snapshot =>
    match Snapshot.read snapshot with
    | .ok contents => .ok (.loaded contents.model, { session with model := contents.model })
    | .error fault => .error (.snapshot fault)
  | .configure value =>
    match Settings.ofJson value >>= Auditor.ofSettings with
    | .ok auditor => .ok (.configured auditor, { session with auditor })
    | .error fault => .error (.settings fault)
  | .audit cancel =>
    match session.auditor.audit session.model cancel with
    | .ok audit => .ok (.audited audit.report, session)
    | .error fault => .error (.audit fault)
  | .classOf name => .ok (.classFound (session.model.class? name), session)
  | .edgeOf source accessor =>
    .ok (.edgeFound ((Graph.ofModel session.model).edge? source accessor), session)

/-- An answer with what is written out for it; a report that is not written to its end is
no answer. -/
def written (style : SessionStyle) (answer : SessionAnswer) :
    Except SessionFault SessionAnswer × String :=
  match answer with
  | .audited report =>
    let printout := style.print report
    (printout.fault?.elim (.ok answer) fun fault => .error (.print fault),
      String.ofList printout.text)
  | _ => (.ok answer, "")

/-- Take steps one after the other: for each its answer or fault, and what was written. -/
def run (style : SessionStyle) (session : Session) :
    List SessionStep → Except SessionFault (List (Except SessionFault SessionAnswer × String))
  | [] => .ok []
  | step :: rest =>
    match session.take step with
    | .ok (answer, next) =>
      (run style next rest).map (written style answer :: ·)
    | .error fault =>
      -- any other fault leaves the session as it was
      if fault.endsSession then .error fault
      else (run style session rest).map ((.error fault, "") :: ·)

end Session

end ObjectAudit
