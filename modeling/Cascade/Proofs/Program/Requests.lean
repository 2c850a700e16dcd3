import Cascade.Program
import Cascade.Proofs.Command.Backup
import Cascade.Proofs.Config.Load

/-!
# What the whole program keeps

An invariant that no request breaks, writing to the error stream apart, holds from the
start of a run to its end, as far as the log keeps it. Only the log and the end of a run
write to the error stream.
-/

namespace Cascade

variable {α β ε : Type} {I : Machine → Prop}

/-- No request breaks `I`, apart from writing to the error stream. -/
structure Quiet (I : Machine → Prop) : Prop where
  now : Preserves I (Host.now : StateM Machine _)
  print : ∀ data, Preserves I (Host.print data : StateM Machine _)
  record : ∀ entry, Preserves I (Host.record entry : StateM Machine _)
  save : ∀ path data, Preserves I (Host.save path data : StateM Machine _)
  extend : ∀ path data, Preserves I (Host.extend path data : StateM Machine _)
  patch : ∀ path data, Preserves I (Host.patch path data : StateM Machine _)
  tempFile : ∀ head tail, Preserves I (Host.tempFile head tail : StateM Machine _)
  tempDir : ∀ head, Preserves I (Host.tempDir head : StateM Machine _)
  mkdir : ∀ path, Preserves I (Host.mkdir path : StateM Machine _)
  removeFile : ∀ path, Preserves I (Host.removeFile path : StateM Machine _)
  removeTree : ∀ path, Preserves I (Host.removeTree path : StateM Machine _)

structure Lasting (I : Machine → Prop) : Prop extends Quiet I where
  complain : ∀ data, Preserves I (Host.complain data : StateM Machine _)

/-! ## The error stream -/

namespace Machine

theorem err_change (w : Machine) (request path : Bytes) (result : Except Cause Disk) :
    (w.change request path result).2.err = w.err := by
  cases result <;> rfl

theorem err_tempFile (w : Machine) (head tail : Bytes) : (w.tempFile head tail).2.err = w.err := by
  have hmake : ∀ path, Preserves (fun w' => w'.err = w.err)
      (fun w => w.create path Disk.privateFileMode : StateM Machine _) :=
    fun _ w' hw' => (w'.err_change _ _ _).trans hw'
  unfold tempFile Host.tryNames
  exact Preserves.tryName (fun _ hw' => hw') hmake _ w rfl

theorem err_tempDir (w : Machine) (head : Bytes) : (w.tempDir head).2.err = w.err := by
  have hmake : ∀ path, Preserves (fun w' => w'.err = w.err)
      (fun w => w.mkdir path Disk.privateDirMode : StateM Machine _) :=
    fun _ w' hw' => (w'.err_change _ _ _).trans hw'
  have haround : Preserves (fun w' => w'.err = w.err)
      (fun w => (w.stat w.temp, w) : StateM Machine _) := fun _ hw' => hw'
  unfold tempDir
  exact Preserves.tryDirs (fun _ hw' => hw') hmake haround w rfl

theorem err_removeTree (w : Machine) (path : Bytes) : (w.removeTree path).2.err = w.err := by
  unfold removeTree
  split <;> rfl

end Machine

theorem preserves_err {P : Bytes → Prop} {f : Machine → α × Machine}
    (hf : ∀ w, (f w).2.err = w.err) : Preserves (fun w => P w.err) (fun w => f w : StateM Machine α) := by
  intro w hw
  show P (f w).2.err
  rw [hf w]
  exact hw

/-- Nothing but a complaint reaches the error stream. -/
theorem quiet_err (P : Bytes → Prop) : Quiet fun w => P w.err where
  now := fun _ h => h
  print := fun _ _ h => h
  record := fun _ _ h => h
  save := fun _ _ => preserves_err fun w => w.err_change _ _ _
  extend := fun _ _ => preserves_err fun w => w.err_change _ _ _
  patch := fun _ _ _ h => h
  tempFile := fun head tail => preserves_err fun w => w.err_tempFile head tail
  tempDir := fun head => preserves_err fun w => w.err_tempDir head
  mkdir := fun _ => preserves_err fun w => w.err_change _ _ _
  removeFile := fun _ => preserves_err fun w => w.err_change _ _ _
  removeTree := fun path => preserves_err fun w => w.err_removeTree path

namespace Quiet

theorem load (path : Bytes) : Preserves I (Host.load path : StateM Machine _) := fun _ h => h

theorem stat (path : Bytes) : Preserves I (Host.stat path : StateM Machine _) := fun _ h => h

theorem cwd : Preserves I (Host.cwd : StateM Machine _) := fun _ h => h

theorem platform : Preserves I (Host.platform : StateM Machine _) := fun _ h => h

/-! ## The report -/

theorem create (hI : Quiet I) (path : Bytes) :
    Preserves I (Report.create path : StateM Machine _) := by
  refine .bind (hI.save _ _) fun saved => ?_
  split
  · exact .pure _
  · refine .bind (hI.tempFile _ _) fun made => ?_
    split
    · exact .pure _
    · exact .pure _

theorem copyInto (hI : Quiet I) (dir path : Bytes) :
    Preserves I (Report.copyInto dir path : StateM Machine _) := by
  refine .bind (load path) fun loaded => ?_
  split
  · exact .pure _
  · refine .bind (hI.save _ _) fun saved => ?_
    split
    · exact .pure _
    · exact .pure _

theorem storeCopy (hI : Quiet I) (r : Report) (name path : Bytes) :
    Preserves I (r.storeCopy name path : StateM Machine _) := by
  refine .bind (.bind cwd fun _ => .pure _) fun full => .bind (stat full) fun found => ?_
  split
  · exact .pure _
  · exact .pure _
  · refine .bind hI.now fun moment => .bind (hI.tempDir _) fun made => ?_
    split
    · exact .pure _
    · refine .bind (hI.copyInto _ _) fun copied => ?_
      split
      · exact .bind (hI.removeTree _) fun _ => .pure _
      · split
        · exact .pure _
        · exact .pure _

theorem content? (s : Stored) : Preserves I (Report.content? s : StateM Machine _) := by
  unfold Report.content?
  split
  · refine .bind (stat _) fun found => ?_
    split
    · exact .bind (load _) fun _ => .pure _
    · exact .pure _
  · exact .pure _

theorem draft (items : List (Bytes × Stored)) :
    Preserves I (Report.draft items : StateM Machine _) := by
  induction items with
  | nil => exact .pure _
  | cons item rest ih =>
      refine .bind (content? _) fun content => ?_
      split
      · exact .pure _
      · exact ih
      · exact .bind ih fun _ => .pure _

theorem removeHomes (hI : Quiet I) (ss : List Stored) :
    Preserves I (Report.removeHomes ss : StateM Machine _) := by
  induction ss with
  | nil => exact .pure _
  | cons s ss ih =>
      refine .bind (hI.removeTree _) fun removed => ?_
      split
      · exact ih
      · exact .bind ih fun _ => .pure _

theorem close [Codecs] (hI : Quiet I) (r : Report) : Preserves I (r.close : StateM Machine _) := by
  have hcopies : Preserves I (r.removeCopies : StateM Machine _) := hI.removeHomes _
  unfold Report.close
  split
  · exact .pure _
  · refine .bind (.bind hI.now fun _ => .bind (draft _) fun _ => .pure _) fun d => ?_
    split
    · exact .bind hcopies fun _ => .pure _
    · exact .bind (hI.patch _ _) fun _ => .bind hcopies fun _ => .pure _

theorem closeReport [Codecs] (hI : Quiet I) :
    Reporting.Preserves I (Reporting.close : Reporting (StateM Machine) _) := by
  refine .bind .get fun ρ => ?_
  cases ρ with
  | none => exact .pure _
  | some r => exact .bind (.lift (hI.close r)) fun _ => .bind (.set _) fun _ => .pure _

/-! ## The configuration -/

theorem bindChecked {x : ExceptT ε (StateM Machine) α} {f : α → ExceptT ε (StateM Machine) β}
    (hx : Preserves I x.run) (hf : ∀ a, Preserves I (f a).run) : Preserves I (x >>= f).run := by
  rw [ExceptT.run_bind]
  refine .bind hx fun r => ?_
  cases r with
  | ok a => exact hf a
  | error e => exact .pure _

theorem process (hI : Quiet I) (c : Config) :
    Preserves I (Config.process c : ExceptT _ (StateM Machine) _).run := by
  have hpath := Config.preserves_sanitizePath hI.mkdir
  have hsanitize : Preserves I (Config.sanitize c : ExceptT _ (StateM Machine) _).run := by
    refine bindChecked (hpath _) fun _ => bindChecked (hpath _) fun _ => ?_
    exact bindChecked (hpath _) fun _ => .pure _
  refine bindChecked hsanitize fun c => bindChecked (.bind (stat _) fun _ => .pure _) fun _ => ?_
  refine bindChecked (.bind (stat _) fun _ => .pure _) fun _ => ?_
  refine bindChecked (.bind (stat _) fun _ => .pure _) fun _ => ?_
  split
  · exact .pure _
  · exact .pure _

theorem loadConfig (hI : Quiet I) (path : Bytes) :
    Preserves I (Config.load path : StateM Machine _) := by
  unfold Config.load
  split
  · exact .bind (hI.process _) fun _ => .pure _
  · refine .bind (load path) fun loaded => ?_
    split
    · exact .pure _
    · refine .bind ?_ fun _ => .pure _
      unfold Config.ofText
      split
      · exact .pure _
      · exact hI.process _

/-! ## The log -/

theorem openFile (hI : Quiet I) (path : Bytes) (append : Bool) (head tail : Bytes) :
    Preserves I (Log.Setup.openFile path append head tail : StateM Machine _) := by
  unfold Log.Setup.openFile
  extract_lets rest
  have hrest : ∀ opened : Except OsError Unit, Preserves I (rest opened) := by
    intro opened
    unfold rest
    split
    · exact .pure _
    · refine .bind (hI.tempFile _ _) fun made => ?_
      split
      · exact .pure _
      · exact .pure _
  split
  · exact .bind (hI.extend _ _) hrest
  · exact .bind (hI.save _ _) hrest

theorem storeLog (name path : Bytes) :
    Attempt.Preserves I (Log.Setup.store name path : Attempt Log.SetupError Unit) := by
  refine .bind (.report (.update fun _ _ hw => hw)) fun answer => ?_
  split
  · exact .pure _
  · exact .throw _

/-! ## Commands -/

variable {log : Log.Logger}

theorem read [Codecs] (path : Bytes) (charset : Charset) :
    Preserves I (Source.read path charset : StateM Machine _) := by
  refine .bind (load path) fun loaded => ?_
  split
  · exact .pure _
  · split
    · exact .pure _
    · exact .pure _

theorem write (hI : Quiet I) (path data : Bytes) :
    Preserves I (Source.write path data : StateM Machine _) := by
  refine .bind (hI.save path data) fun saved => ?_
  split
  · exact .pure _
  · exact .pure _

theorem storeData (hI : Quiet I) (name data : Bytes) :
    Attempt.Preserves I (Action.storeData name data : Action (StateM Machine) Unit) :=
  .bind (.report (.update fun _ => .bind hI.now fun _ => .pure _)) fun answer => .ofExcept answer

theorem storeInput (hI : Quiet I) (hlog : log.Preserves I) (path : Bytes) :
    Attempt.Preserves I (Action.storeInput log path) :=
  Action.preserves_storeInput hlog hI.storeCopy path

theorem dedupeProcess [Codecs] (hI : Quiet I) (hlog : log.Preserves I) (o : Dedupe.Options) :
    Attempt.Preserves I (Dedupe.process o log) := by
  have hkeep : Attempt.Preserves I (Dedupe.keep o : Action (StateM Machine) Unit) := by
    unfold Dedupe.keep
    split
    · refine .bind (.lift (load _)) fun _ => .bind (.ofExcept _) fun data => ?_
      exact .bind (.lift (hI.write _ _)) fun _ => .ofExcept _
    · exact .pure _
  have hfinish : ∀ sheet, Attempt.Preserves I (Dedupe.finish o log sheet) := by
    intro sheet
    refine .bind (.lift (hI.write _ _)) fun _ => .bind (.ofExcept _) fun _ => ?_
    exact .bind (Action.preserves_store _ _) fun _ => .bind (.lift (hlog _)) fun _ => .pure _
  rw [Dedupe.process_eq]
  refine .bind (.lift (read _ _)) fun _ => .bind (.ofExcept _) fun data => ?_
  refine .bind (hI.storeInput hlog _) fun _ => .bind (Action.preserves_scan hlog _ _) fun sheet => ?_
  exact .bind hkeep fun _ => hfinish sheet

/-- A logger without outlets only asks for the time. -/
theorem silent (hI : Quiet I) : Log.Logger.silent.Preserves I := fun _ => .bind hI.now fun _ => .pure _

/-! ## Start and end -/

theorem startReport (hI : Quiet I) (line : Line) (path : Bytes) (c : Config) :
    Attempt.Preserves I (Program.startReport line path c : Attempt Program.StartError Unit) := by
  unfold Program.startReport
  split
  · refine .bind (.lift (hI.create _)) fun made => ?_
    split
    · exact .throw _
    · refine .bind (.report (.set _)) fun _ => ?_
      split
      · refine .bind (.report (.update fun _ => .bind hI.now fun _ => .pure _)) fun answer => ?_
        split
        · exact .throw _
        · exact .pure _
      · exact .pure _
  · exact .pure _

theorem announce (hlog : log.Preserves I) (args : List Bytes) (path : Bytes) :
    Reporting.Preserves I (Program.announce log args path : Reporting (StateM Machine) Unit) := by
  have hrest : Reporting.Preserves I (if path.isEmpty then
      (log.log .debug "Using defaults (no configuration file)" : StateM Machine Unit)
      else pure () : Reporting (StateM Machine) Unit) := by
    split
    · exact .lift (hlog _)
    · exact .pure _
  refine .bind (.lift platform) fun _ => .bind (.lift (hlog _)) fun _ => .bind .get fun ρ => ?_
  dsimp only
  split
  · have hname : Reporting.Preserves I (Reporting.name : Reporting (StateM Machine) Bytes) := by
      refine .bind .get fun ρ => ?_
      split
      · exact .pure _
      · refine .lift ?_
        unfold Report.name
        split
        · exact .pure _
        · exact .bind cwd fun _ => .pure _
    exact .bind hname fun _ => .bind (.lift (hlog _)) fun _ => hrest
  · exact hrest

theorem chooseCharset (hlog : log.Preserves I) (line : Line) (c : Config) :
    Preserves I (Program.chooseCharset log line c : StateM Machine Charset) := by
  unfold Program.chooseCharset
  split
  · exact .pure _
  · exact .bind (hlog _) fun _ => .pure _

theorem removeCrashFile (hI : Quiet I) (c : Config) :
    Preserves I (Program.removeCrashFile c : StateM Machine _) := by
  unfold Program.removeCrashFile
  split
  · exact .pure _
  · refine .bind (stat _) fun found => ?_
    split
    · refine .bind (hI.removeFile _) fun removed => ?_
      split
      · exact .pure _
      · exact .pure _
    · exact .pure _

end Quiet

/-! ## With complaints -/

namespace Lasting

theorem onFiles (hI : Lasting I) : OnFiles I := ⟨hI.now, hI.print, hI.complain, hI.record⟩

theorem logger (hI : Lasting I) (l : Log.Logger) : l.Preserves I :=
  Log.Logger.preserves hI.onFiles fun file _ => hI.extend file

theorem setup (hI : Lasting I)
    (file console : Channel) :
    Attempt.Preserves I (Log.Setup.run file console : Attempt Log.SetupError Log.Logger) := by
  refine .bind (.report .get) fun ρ => ?_
  dsimp only
  split
  · exact .pure _
  · have hcrash : Attempt.Preserves I (Log.Setup.openCrashFile (Log.Setup.effective file ρ) :
        Attempt Log.SetupError Unit) := by
      refine .bind (.lift (hI.openFile _ _ _ _)) fun opened => ?_
      split
      · exact Quiet.storeLog _ _
      · exact .pure _
    have hopen : Attempt.Preserves I (Log.Setup.openLog (Log.Setup.effective file ρ) :
        Attempt Log.SetupError Log.Opened) := by
      refine .bind (.lift (hI.openFile _ _ _ _)) fun opened => ?_
      split
      · exact .throw _
      · exact .bind (Quiet.storeLog _ _) fun _ => .pure _
    refine .bind hcrash fun _ => .bind hopen fun log => ?_
    split
    · exact .bind (.lift (hI.logger _ _)) fun _ => .pure _
    · exact .pure _

theorem dedupe [Codecs] (hI : Lasting I) (env : Environment) (command : Bytes) (line : Line) :
    Attempt.Preserves I (Dedupe.run env command line) := by
  refine .bind (Action.preserves_proceed env) fun _ => ?_
  refine .bind (Action.preserves_stylesheet (hI.logger _) _ _) fun path => ?_
  refine .bind (.lift (hI.logger _ _)) fun _ => ?_
  refine .before ?_ (Action.preserves_logElapsed hI.onFiles (hI.logger _) _)
  refine .bind (hI.dedupeProcess (hI.logger _) _) fun n => .bind (.lift (hI.print _)) fun fine => ?_
  split
  · exact .throw _
  · exact .pure _

theorem analyze [Codecs] (hI : Lasting I) (env : Environment) (command : Bytes) (line : Line) :
    Attempt.Preserves I (Analyze.run env command line) := by
  have hsummarize : ∀ log path charset limit,
      Attempt.Preserves I (Analyze.summarize log path charset limit) := by
    intro log path charset limit
    refine .bind (.lift (Quiet.read _ _)) fun _ => .bind (.ofExcept _) fun data => ?_
    refine .bind (Action.preserves_scan (hI.logger log) _ _) fun sheet => ?_
    exact .bind (.lift (hI.logger _ _)) fun _ => .pure _
  refine .bind (Action.preserves_proceed env) fun _ => ?_
  refine .bind (Action.preserves_stylesheet (hI.logger _) _ _) fun path => ?_
  refine .bind (.lift (hI.logger _ _)) fun _ => ?_
  refine .before ?_ (Action.preserves_logElapsed hI.onFiles (hI.logger _) _)
  refine .bind (hsummarize _ _ _ _) fun summary => .bind (hI.storeInput (hI.logger _) _) fun _ => ?_
  refine .bind (hI.storeData _ _) fun _ => .bind (.lift (hI.print _)) fun fine => ?_
  split
  · exact .throw _
  · exact .pure _

theorem dumpConfig (hI : Lasting I) (env : Environment) (line : Line) :
    Attempt.Preserves I (DumpConfig.run env line) := by
  refine .first (fun hrest => .bind (.lift (hI.logger _ _)) fun _ => hrest) ?_
  refine .first (fun hrest => ?_) ?_
  · exact .bind (.lift (hI.save _ _)) fun _ => .bind (.ofExcept _) fun _ => hrest
  refine .bind (.lift (hI.logger _ _)) fun _ => ?_
  split
  · refine .bind (.lift (hI.print _)) fun fine => ?_
    split
    · exact .throw _
    · exact .pure _
  · exact .bind (.lift (hI.save _ _)) fun _ => .ofExcept _

theorem perform [Codecs] (hI : Lasting I) (env : Environment)
    (request : Program.Request) : Attempt.Preserves I (Program.perform env request) := by
  have hprint : ∀ text, Attempt.Preserves I (do let _ ← (Host.print text : StateM Machine Bool) :
      Action (StateM Machine) Unit) :=
    fun text => .bind (.lift (hI.print text)) fun _ => .pure _
  unfold Program.perform
  split
  · exact hprint _
  · exact hprint _
  · split
    · exact hprint _
    · exact .lift (hI.logger _ _)
  · exact hI.analyze _ _ _
  · exact hI.dedupe _ _ _
  · exact hI.dumpConfig _ _

theorem startLog (hI : Lasting I) (c : Config) :
    Attempt.Preserves I (Program.startLog c : Attempt Program.StartError Log.Logger) := by
  refine .bind (.report (hI.setup _ _)) fun answer => ?_
  split
  · exact .pure _
  · exact .throw _

theorem start (hI : Lasting I) (line : Line)
    (args : List Bytes) (c : Config) :
    Attempt.Preserves I (Program.start line args c : Attempt Program.StartError Environment) := by
  refine .bind (hI.startReport _ _ _) fun _ => .bind (hI.startLog _) fun logger => ?_
  refine .bind (.report (Quiet.announce (hI.logger _) _ _)) fun _ => ?_
  exact .bind (.lift (Quiet.chooseCharset (hI.logger _) _ _)) fun _ => .pure _

end Lasting

end Cascade
