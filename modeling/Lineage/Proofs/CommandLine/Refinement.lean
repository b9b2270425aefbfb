/-
Runs of the command line program one after the other make up one service.

`Session.observed` follows by induction over the runs from what a single run owes (`Answers.leaves`), and
`runs_refine_service` adds when nothing stands in the way of the database file, and how the texts of the
files that a run reads are laid out.
-/

import Lineage.Proofs.CommandLine.Run
import Lineage.Proofs.Configuration
import Lineage.Proofs.Definition.RoundTrip

namespace Lineage.CommandLine

/-! ### Sequences of runs -/

/-- The rows that the file at a place holds. -/
def rowsAt (files : Files) (place : Place) : List Row :=
  match files.node? place with
  | some (.file (.database db)) => db.items.rows
  | _ => []

theorem rowsAt_of_houses {files : Files} {place : Place} {db : Database}
    (h : Houses place db (files.node? place)) : rowsAt files place = db.items.rows := by
  unfold rowsAt
  generalize files.node? place = node at h
  cases h with
  | stored _ => rfl
  | fresh hinitial hblank =>
    subst hinitial
    split
    · next hfile => cases hblank _ rfl
    · rfl

/-- Runs one after the other, each of which finds at a place what the one before it has left there. All
other files may change between them. -/
inductive Sequence (place : Place) : Option (Node Content) → List Run → Prop where
  | nil {node : Option (Node Content)} : Sequence place node []
  | cons {node : Option (Node Content)} {r : Run} {rest : List Run}
      (found : r.around.files.node? place = node) (aims : r.Aims place)
      (next : Sequence place (r.report.files.node? place) rest) : Sequence place node (r :: rest)

/-- What a run puts out, and the rows that it leaves in the file at a place. -/
def Run.observed (place : Place) (r : Run) : Printed × List Row :=
  (⟨r.report.code, r.report.out, r.report.err⟩, rowsAt r.report.files place)

section Sequences

variable {place : Place} {node : Option (Node Content)} {runs : List Run} {db : Database}

theorem Report.Leaves.observed {r : Run} {printed : Printed} (h : r.report.Leaves place printed db) :
    r.observed place = (printed, db.items.rows) := by
  rw [Run.observed, h.code, h.out, h.err, rowsAt_of_houses h.houses]

/-- What is observed of runs is what comes of their calls on one database in memory. -/
theorem Session.observed {seen : List (Printed × List Row)} (h : Session db runs seen)
    (hsequence : Sequence place node runs) (hdb : db.Reachable) (hhouses : Houses place db node) :
    runs.map (Run.observed place) = seen := by
  induction h generalizing node with
  | nil => rfl
  | cons answers _ ih =>
    obtain - | ⟨found, aims, next⟩ := hsequence
    have hstep := answers.leaves hdb (found ▸ hhouses) aims
    rw [List.map_cons, hstep.observed, ih next hstep.reachable hstep.houses]

theorem exists_session (db : Database) (runs : List Run) : ∃ seen, Session db runs seen := by
  induction runs generalizing db with
  | nil => exact ⟨[], .nil⟩
  | cons r rest ih =>
    obtain ⟨printed, after, answers⟩ := exists_answers db r
    obtain ⟨seen, next⟩ := ih after
    exact ⟨_, .cons answers next⟩

theorem session_iff (hsequence : Sequence place node runs) (hdb : db.Reachable)
    (hhouses : Houses place db node) {seen : List (Printed × List Row)} :
    Session db runs seen ↔ runs.map (Run.observed place) = seen := by
  constructor
  · intro h
    exact h.observed hsequence hdb hhouses
  · rintro rfl
    obtain ⟨seen, h⟩ := exists_session db runs
    exact h.observed hsequence hdb hhouses ▸ h

end Sequences

/-- Take any runs of the program one after the other, with any arguments, configurations and inputs,
whose database is the file at a place where nothing stands at first. What they put out, and the rows that
they leave in the file, is what comes of their service calls, each in the configuration of its run, when
these are made in the same order on one database that has been opened in memory once and stays open
(`Session`). A run that comes to no call puts out why, and leaves the rows as they are.

That the file cannot be used is one reason for this, and it is none wherever the directories are there or
can be made and nothing stands beside the file. Only a run whose arguments ask for the file to be read
and not written is refused what it writes. A configuration and a submission are what their documents
say, however they are laid out. -/
theorem runs_refine_service :
    (∀ place runs, Sequence place none runs →
      ∀ millis db, (Database.openMemory millis).1 = .ok db →
        ∀ seen, Session db runs seen ↔ runs.map (Run.observed place) = seen) ∧
    (∀ files made cwd path place, Database.Usable files made cwd path place →
      Database.barrier? files cwd path = none ∧
        Database.through (Database.refusal? path) = Database.backend) ∧
    (∀ (config : Config) (x : Json) (text : String), config.Documents x → x.Prints text →
      Json.decode Config.decoder text = .ok config) ∧
    ∀ (s : Submission) (x : Json) (text : String), s.payload.Portable →
      Json.Documents s.toJson s.members x → x.Prints text →
        Json.decode Submission.decoder text = .ok s := by
  refine ⟨fun place runs h millis db hopen seen => ?_, fun files made cwd path place h => ⟨?_, ?_⟩,
    fun config x text h htext => ?_, fun s x text hpayload h htext => ?_⟩
  · obtain rfl : .initial = db := Except.ok.inj hopen
    exact session_iff h Database.reachable_initial (.fresh rfl nofun)
  · exact h.barrier?_eq_none
  · rw [h.refusal?_eq_none, Database.through_none]
  · exact Config.decode_documents h htext
  · exact htext.decode (Submission.decoder_documents h hpayload)

/-! ### An order that goes from run to run -/

theorem readText_of_read {files : Files} {cwd : Place} {path s : String}
    (h : files.read cwd path = .ok (.bytes s.toUTF8)) : Files.readText files cwd path = .ok s := by
  have hvalid : s.toUTF8.IsValidUTF8 := s.isValidUTF8
  rw [Files.readText, h]
  simp only [bind, Except.bind, String.fromUTF8?, dif_pos hvalid]
  rfl

/-- A configuration in which versions start with a year. -/
def settings : Config :=
  { initialVersion := "2026.1" }

/-- What the file of that configuration holds. -/
def settingsDocument : Json :=
  .object [("initialVersion", .string "2026.1")]

theorem documents_settings : settings.Documents settingsDocument :=
  .members (.left rfl) .given .none (.left rfl) (.refl _)

/-- The order as it is submitted. -/
def submittedOrder : Submission :=
  ⟨none, some order.definitionId, none, none, none, none, order.payload⟩

/-- A directory in which the order and the configuration wait in files. -/
def shop : Files :=
  (Disk.empty.put ["order.json"] (.file (.bytes submittedOrder.toJson.pretty.toUTF8))).put
    ["settings.json"] (.file (.bytes settingsDocument.text.toUTF8))

/-- The order as it is stored. -/
def storedOrder : Item :=
  { order with version := "2026.1" }.toItem ⟨⟨1⟩, 5⟩

/-- The database that holds it. -/
def withOrder : Database :=
  { Database.initial with items := { rows := [Row.ofItem storedOrder] } }

theorem reachable_withOrder : withOrder.Reachable :=
  Database.reachable_initial.append ⟨⟨1⟩, 5⟩ { order with version := "2026.1" } rfl rfl

/-- The directory with the file of that database. -/
def stocked : Files :=
  shop.put ["pdm.sqlite3"] (.file (.database withOrder))

theorem usable_shop : Database.Usable shop shop [] "./pdm.sqlite3" ["pdm.sqlite3"] where
  parents := rfl
  address := ⟨defaultDatabase, rfl, rfl⟩
  directory := rfl
  node := nofun
  fits := rfl
  journal := rfl
  log := rfl

theorem usable_stocked : Database.Usable stocked stocked [] "./pdm.sqlite3" ["pdm.sqlite3"] where
  parents := rfl
  address := ⟨defaultDatabase, rfl, rfl⟩
  directory := rfl
  node := nofun
  fits := rfl
  journal := rfl
  log := rfl

/-- A run that stores the order. -/
def Run.first : Run :=
  ⟨⟨shop, [], ⟨⟨1⟩, 5⟩⟩, ["--config", "settings.json", "persist", "order.json"]⟩

/-- A run after it. -/
def Run.later (args : List String) : Run :=
  ⟨⟨stocked, [], ⟨⟨2⟩, 9⟩⟩, args⟩

theorem spells_first :
    Invocation.Spells ⟨some "settings.json", none, .persist "order.json" none⟩ Run.first.args := by
  have hbefore : Holds [("config", "settings.json")] [("config", some "settings.json"), ("db", none)] :=
    ⟨by decide, by simp⟩
  have hafter : Holds [] [("config", none), ("db", none), ("mode", none)] := ⟨by decide, by simp⟩
  have hconfig := looksLikeOption_eq_false_iff.1 (show looksLikeOption "settings.json" = false from rfl)
  have hfile := looksLikeOption_eq_false_iff.1 (show looksLikeOption "order.json" = false from rfl)
  exact .mk (.persist (by decide)) hbefore hafter (by decide) (.apart hconfig .done)
    (.plain (.operand hfile .done))

theorem spells_list :
    Invocation.Spells ⟨none, none, .list (some "order") none none⟩ ["list", "--definition-id=order"] := by
  have hbefore : Holds [] [("config", none), ("db", none)] := ⟨by decide, by simp⟩
  have hafter : Holds [("definition-id", "order")] [("config", none), ("db", none),
      ("definition-id", some "order"), ("tenant-id", none), ("version", none)] := ⟨by decide, by simp⟩
  exact .mk .list hbefore hafter (by decide) .done (.plain (.joined .done))

theorem spells_get : Invocation.Spells ⟨none, none, .get ⟨1⟩⟩ ["get", Uuid.text ⟨1⟩] := by
  have hnone : Holds [] [("config", none), ("db", none)] := ⟨by decide, by simp⟩
  have hid := looksLikeOption_eq_false_iff.1 (show looksLikeOption (Uuid.text ⟨1⟩) = false from rfl)
  exact .mk (.get (Uuid.parse?_text _)) hnone hnone (by decide) .done (.plain (.operand hid .done))

theorem holds_delete : Holds [("definition-id", "order")] [("config", none), ("db", none), ("id", none),
    ("definition-id", some "order"), ("tenant-id", none)] :=
  ⟨by decide, by simp⟩

theorem gives_delete : GivesAll [("definition-id", "order")] [] ["--definition-id", "order"] := by
  have hplain := looksLikeOption_eq_false_iff.1 (show looksLikeOption "order" = false from rfl)
  exact .plain (.apart hplain .done)

theorem spells_misconfigured :
    Invocation.Spells ⟨some "none.json", none, .deleteMany "order" none⟩
      ["--config=none.json", "delete", "--definition-id", "order"] := by
  have hbefore : Holds [("config", "none.json")] [("config", some "none.json"), ("db", none)] :=
    ⟨by decide, by simp⟩
  exact .mk .deleteMany hbefore holds_delete (by decide) (.joined .done) gives_delete

theorem spells_delete :
    Invocation.Spells ⟨none, none, .deleteMany "order" none⟩ ["delete", "--definition-id", "order"] := by
  have hbefore : Holds [] [("config", none), ("db", none)] := ⟨by decide, by simp⟩
  exact .mk .deleteMany hbefore holds_delete (by decide) .done gives_delete

theorem configures_settings : Configures shop [] (some "settings.json") (.ok settings) := by
  have hread : Files.readText shop [] "settings.json" = .ok settingsDocument.text := readText_of_read rfl
  exact .named hread (Config.decode_documents documents_settings .line) ⟨'2', by decide, rfl⟩

theorem submits_order :
    Submits (Database.openFile shop [] "./pdm.sqlite3" 0).files [] "order.json" (.ok submittedOrder) := by
  have hread : Files.readText (Database.openFile shop [] "./pdm.sqlite3" 0).files [] "order.json" =
      .ok submittedOrder.toJson.pretty := readText_of_read rfl
  exact .named hread (Json.Prints.lines.decode (Submission.decoder_documents .value portable_order))

theorem getItems_initial (stamp : Stamp) (clause : Clause) :
    Database.backend stamp (.getItems (.single clause)) .initial = (.ok [], .initial) := by
  have hsorted : sortItems [] = [] := List.mergeSort_nil
  rw [Database.backend_of_ready rfl (Database.statementFault?_single clause)]
  change (Except.ok (sortItems []), Database.initial) = _
  rw [hsorted]

theorem decode_storedOrder : (Row.ofItem storedOrder).decode = .ok storedOrder :=
  Row.decode_ofItem portable_order.storable

theorem effect_persist :
    (Service.persistByName { config := settings } none submittedOrder).effect Database.backend
      ⟨⟨1⟩, 5⟩ .initial = (.ok storedOrder, withOrder) := by
  have hadd : Database.backend ⟨⟨1⟩, 5⟩ (.addItem { order with version := "2026.1" }) .initial =
      (.ok storedOrder, withOrder) := by
    rw [Database.backend_addItem_of_free rfl rfl]
    exact congrArg (·, withOrder) decode_storedOrder
  have hid : submittedOrder.resolvedId = some "order" := rfl
  simp only [Service.persistByName, Service.persist, hid, Service.persistAs, Service.latestIn,
    Service.ask, Dialogue.effect_ask, getItems_initial]
  change (Dialogue.ask (.addItem { order with version := "2026.1" }) _).effect Database.backend
    ⟨⟨1⟩, 5⟩ .initial = _
  rw [Dialogue.effect_ask, hadd]
  rfl

theorem effect_list :
    (Service.list ⟨[{ definitionId := some "order" }]⟩).effect Database.backend ⟨⟨2⟩, 9⟩ withOrder =
      (.ok [storedOrder], withOrder) := by
  have htaken : Database.statementFault? (.getItems ⟨[{ definitionId := some "order" }]⟩) = none :=
    Database.statementFault?_single _
  have hselect : withOrder.items.select (Filter.condition ⟨[{ definitionId := some "order" }]⟩) =
      [Row.ofItem storedOrder] := rfl
  have hsorted : sortItems [storedOrder] = [storedOrder] := List.mergeSort_singleton _
  have hlist : withOrder.items.list ⟨[{ definitionId := some "order" }]⟩ = .ok [storedOrder] := by
    rw [Table.list, hselect, List.mapM_cons, decode_storedOrder]
    exact congrArg Except.ok hsorted
  rw [Service.list, Service.ask, Dialogue.effect_ask,
    Database.backend_of_ready rfl htaken, Table.backend, hlist]
  rfl

theorem effect_get :
    (Service.get ⟨1⟩).effect Database.backend ⟨⟨2⟩, 9⟩ withOrder = (.ok storedOrder, withOrder) := by
  have hfind : withOrder.items.rows.find? (·.id = Uuid.text ⟨1⟩) = some (Row.ofItem storedOrder) :=
    List.find?_cons_of_pos (decide_eq_true rfl)
  have hget : withOrder.items.get ⟨1⟩ = .ok storedOrder := by
    rw [Table.get, hfind]
    exact decode_storedOrder
  rw [Service.get, Service.ask, Dialogue.effect_ask, Database.backend_of_ready rfl rfl, Table.backend,
    hget]
  rfl

theorem effect_delete :
    (Service.deleteAll ⟨[{ definitionId := some "order", tenantId := none }]⟩).effect Database.backend
      ⟨⟨2⟩, 9⟩ withOrder = (.ok 1, .initial) := by
  rw [Service.deleteAll, Service.ask, Dialogue.effect_ask, Database.backend_of_ready rfl rfl]
  rfl

theorem answers_first :
    Answers .initial Run.first (.result Item.toJson (.ok storedOrder)) withOrder := by
  have hserves : Serves settings (Database.openFile shop [] "./pdm.sqlite3" 0).files [] none
      Run.first.around.stamp .initial (.persist "order.json" none)
        (.result Item.toJson (.ok storedOrder)) withOrder := .persist submits_order effect_persist
  rw [← usable_shop.refusal?_eq_none] at hserves
  exact .served spells_first (.silent configures_settings rfl) usable_shop.barrier?_eq_none hserves

/-- A run without options of the program is served as its command is. -/
theorem answers_later {args : List String} {command : Command} {printed : Printed} {after : Database}
    (spells : Invocation.Spells ⟨none, none, command⟩ args)
    (serves : ∀ files, Serves {} files [] none ⟨⟨2⟩, 9⟩ withOrder command printed after) :
    Answers withOrder (.later args) printed after := by
  have hserves := serves (Database.openFile stocked [] "./pdm.sqlite3" 0).files
  rw [← usable_stocked.refusal?_eq_none] at hserves
  exact .served spells (.silent .default rfl) usable_stocked.barrier?_eq_none hserves

/-- Without its file of configuration a run deletes nothing. -/
theorem answers_misconfigured :
    Answers withOrder (.later ["--config=none.json", "delete", "--definition-id", "order"])
      (.failure "failed to read config: No such file or directory (os error 2)") withOrder := by
  have hread : Files.readText stocked [] "none.json" = .error .notFound := rfl
  exact .unconfigured spells_misconfigured (.unreadable hread)

/-- Runs that store the order, list it, read it, fail to delete it, and delete it. -/
def orderRuns : List Run :=
  [.first, .later ["list", "--definition-id=order"], .later ["get", Uuid.text ⟨1⟩],
    .later ["--config=none.json", "delete", "--definition-id", "order"],
    .later ["delete", "--definition-id", "order"]]

/-- What they put out, and the rows that each of them leaves. -/
def orderAnswers : List (Printed × List Row) :=
  [(⟨0, storedOrder.toJson.pretty ++ "\n", ""⟩, [Row.ofItem storedOrder]),
    (⟨0, (Json.array [storedOrder.toJson]).pretty ++ "\n", ""⟩, [Row.ofItem storedOrder]),
    (⟨0, storedOrder.toJson.pretty ++ "\n", ""⟩, [Row.ofItem storedOrder]),
    (⟨1, "", "error: failed to read config: No such file or directory (os error 2)\n"⟩,
      [Row.ofItem storedOrder]),
    (⟨0, "\x7b\n  \"deleted\": 1\n\x7d\n", ""⟩, [])]

theorem session_orderRuns : Session .initial orderRuns orderAnswers :=
  .cons answers_first (.cons (answers_later spells_list fun _ => .list effect_list)
    (.cons (answers_later spells_get fun _ => .get effect_get) (.cons answers_misconfigured
      (.cons (answers_later spells_delete fun _ => .deleteMany effect_delete) .nil))))

theorem aims_of_spells {r : Run} {i : Invocation} (spells : i.Spells r.args)
    (hdatabase : i.database = none) (hcwd : r.around.cwd = []) : r.Aims ["pdm.sqlite3"] := by
  intro other config files hother _ _
  obtain rfl : i = other :=
    Request.invoke.inj ((request_of_spells spells).symm.trans (request_of_spells hother))
  rw [Invocation.path, hdatabase, hcwd]
  refine ⟨⟨defaultDatabase, .readWriteCreate, false, none⟩, rfl, fun found hfound => ?_⟩
  exact (Except.ok.inj hfound).symm

/-- A run finds the order where the run before it has left it. -/
theorem Sequence.cons_later {args : List String} {rest : List Run} {i : Invocation} {printed : Printed}
    {after : Database} {node : Option (Node Content)} (found : Houses ["pdm.sqlite3"] withOrder node)
    (spells : i.Spells args) (hdatabase : i.database = none)
    (answers : Answers withOrder (.later args) printed after)
    (next : ∀ node, Houses ["pdm.sqlite3"] after node → Sequence ["pdm.sqlite3"] node rest) :
    Sequence ["pdm.sqlite3"] node (.later args :: rest) := by
  have haims : (Run.later args).Aims ["pdm.sqlite3"] := aims_of_spells spells hdatabase rfl
  have hnode : stocked.node? ["pdm.sqlite3"] = node := by
    cases found with
    | stored _ => rfl
    | fresh hinitial _ => cases congrArg (·.items.rows) hinitial
  have hhouses : Houses ["pdm.sqlite3"] withOrder (stocked.node? ["pdm.sqlite3"]) := .stored rfl
  have hleaves := answers.leaves reachable_withOrder hhouses haims
  exact .cons hnode haims (next _ hleaves.houses)

theorem sequence_orderRuns : Sequence ["pdm.sqlite3"] none orderRuns := by
  have haims : Run.first.Aims ["pdm.sqlite3"] := aims_of_spells spells_first rfl rfl
  have hnode : shop.node? ["pdm.sqlite3"] = none := rfl
  have hhouses : Houses ["pdm.sqlite3"] .initial (shop.node? ["pdm.sqlite3"]) :=
    .fresh rfl (by rw [hnode]; nofun)
  have hfirst := answers_first.leaves Database.reachable_initial hhouses haims
  refine .cons rfl haims (.cons_later hfirst.houses spells_list rfl
    (answers_later spells_list fun _ => .list effect_list) fun _ hlisted => ?_)
  refine .cons_later hlisted spells_get rfl (answers_later spells_get fun _ => .get effect_get)
    fun _ hread => ?_
  refine .cons_later hread spells_misconfigured rfl answers_misconfigured fun _ hleft => ?_
  exact .cons_later hleft spells_delete rfl
    (answers_later spells_delete fun _ => .deleteMany effect_delete) fun _ _ => .nil

/-- The first run stores the order with the version of its configuration, and the last one deletes it. -/
theorem runs_refine_service_orders :
    orderRuns.map (Run.observed ["pdm.sqlite3"]) = orderAnswers ∧
      (Database.barrier? shop [] "./pdm.sqlite3" = none ∧
        Database.through (Database.refusal? "./pdm.sqlite3") = Database.backend) ∧
      Json.decode Config.decoder settingsDocument.text = .ok settings ∧
      Json.decode Submission.decoder submittedOrder.toJson.pretty = .ok submittedOrder := by
  obtain ⟨hruns, husable, hconfig, hsubmission⟩ := runs_refine_service
  have hopen : (Database.openMemory 3).1 = .ok .initial := rfl
  exact ⟨(hruns _ _ sequence_orderRuns 3 _ hopen _).1 session_orderRuns,
    husable _ _ _ _ _ usable_shop, hconfig _ _ _ documents_settings .line,
    hsubmission _ _ _ portable_order .value .lines⟩

end Lineage.CommandLine
