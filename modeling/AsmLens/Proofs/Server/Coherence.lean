import AsmLens.Proofs.Path
import AsmLens.Proofs.Server.Run

/-!
# The setting and the active table

A session keeps the active table, the workspace and the setting apart from each other (`Session.basis`), and requests
write them one by one. They stay coherent (`IsCoherent`) because every request that writes the workspace or the setting
also reloads the table (`basis_handle_of_reloading?`), and every other leaves all three alone or takes the built-in
table back together with the empty setting (`basis_handle_of_eq_none`). A reload makes them coherent from whatever
state (`isCoherent_reload`), and it tells the user once how it went if the setting is not empty (`noticesOf_reload`).

* `isCoherent_run`: after every run the three are coherent, and whatever message comes next tells the user once if it
  loads a file.
* `isSettingFor_selectTable`: a request that selects a file stores a setting that names it. It is relative just if the
  file lies in the workspace, and then leads from the workspace down to the file.
-/

namespace AsmLens

/-- A path that is cleaned is not empty. -/
theorem Path.clean_ne_nil (p : Bytes) : clean p ≠ [] := by
  unfold clean
  simp only
  split
  · exact List.cons_ne_nil _ _
  · split
    · exact List.cons_ne_nil _ _
    · next h => simpa using h

/-- A setting that is not empty names a file. -/
theorem Path.resolve_eq_nil_iff (root setting : Bytes) : resolve root setting = [] ↔ setting = [] := by
  constructor
  · intro h
    by_contra hs
    unfold resolve at h
    rw [if_neg (by simpa using hs)] at h
    split at h
    · exact hs h
    · unfold join at h
      split at h
      · exact clean_ne_nil _ h
      · rw [if_pos (by simpa using hs)] at h
        exact clean_ne_nil _ h
  · rintro rfl
    rfl

/-- A table that is loaded is what the file describes, and declares something. -/
theorem Isa.load_eq_ok_iff {read : Files.Reader} {path : Bytes} {isa : Isa} :
    Isa.load read path = .ok isa ↔
      ∃ text, read path = .ok text ∧ isa = Description.parse text ∧ isa.isEmpty = false := by
  unfold Isa.load
  cases read path with
  | error reason => simp
  | ok text =>
    simp only [Except.ok.injEq, exists_eq_left']
    split
    · next h =>
      refine iff_of_false (fun hc => by cases hc) ?_
      rintro ⟨rfl, hn⟩
      simp [h] at hn
    · next h =>
      simp only [Except.ok.injEq]
      constructor
      · rintro rfl
        exact ⟨rfl, by simpa using h⟩
      · rintro ⟨rfl, -⟩
        rfl

namespace Server

/-! ## Notices -/

/-- What kind of message an event shows to the user. -/
def Event.notice? : Event → Option Notice
  | .send (.notify notice _) => some notice
  | _ => none

/-- The messages that are shown to the user, in order, by their kinds. -/
def noticesOf (events : List Event) : List Notice := events.filterMap Event.notice?

@[simp]
theorem noticesOf_nil : noticesOf [] = [] := rfl

@[simp]
theorem noticesOf_append (es es' : List Event) : noticesOf (es ++ es') = noticesOf es ++ noticesOf es' :=
  List.filterMap_append ..

theorem sees_notice? : Sees .notice Event.notice? := by
  intro e he
  unfold Event.notice?
  split
  · exact absurd rfl he
  · rfl

@[simp]
theorem noticesOf_cons_of_ne {e : Event} (h : ¬ e.purpose = .notice) (es : List Event) :
    noticesOf (e :: es) = noticesOf es :=
  List.filterMap_cons_none (sees_notice? e h)

theorem OnlyFor.noticesOf_eq_nil {purposes : List Purpose} {es : List Event} (h : OnlyFor purposes es)
    (hp : Purpose.notice ∉ purposes) : noticesOf es = [] :=
  List.filterMap_eq_nil_iff.2 (sees_notice?.eq_none h hp)

namespace Session

@[simp]
theorem noticesOf_publishAll (s : Session) : noticesOf s.publishAll.2 = [] :=
  (onlyFor_publishAll s).noticesOf_eq_nil (by decide)

@[simp]
theorem noticesOf_rootOf (rootUri rootPath : Bytes) : noticesOf (rootOf rootUri rootPath).2 = [] :=
  (onlyFor_rootOf rootUri rootPath).noticesOf_eq_nil (by decide)

/-! ## What requests do with the table -/

/-- What decides about the table: the active one, the workspace and the setting. -/
structure Basis where
  active : Active
  root : Bytes
  setting : Bytes

def basis (s : Session) : Basis := ⟨s.active, s.root, s.setting⟩

/-- The session for which a request reloads the table, with its workspace and its setting in place. -/
def reloading? (s : Session) : Request → Option Session
  | .start rootUri rootPath setting =>
    some { s with root := (rootOf rootUri rootPath).1, setting := setting.getD s.setting }
  | .configure (some setting) => if setting = s.setting then none else some { s with setting }
  | .selectTable path => some { s with setting := Path.relativeTo s.root path }
  | .reloadTable => some s
  | _ => none

/-- The session for which a message loads the table from a file. -/
def loading? (s : Session) (m : Message) : Option Session :=
  match Request.ofMessage m with
  | .ok request => (s.reloading? request).filter (·.setting ≠ [])
  | .error _ => none

variable {s t : Session} {request : Request}

/-- A request that reloads leaves the table, the workspace and the setting as the reload does, and tells the user what
the reload tells. -/
theorem basis_handle_of_reloading? (h : s.reloading? request = some t) (read : Files.Reader) (id : Id) :
    (s.handle read id request).1.basis = (t.reload read).1.basis ∧
      noticesOf (s.handle read id request).2 = noticesOf (t.reload read).2 := by
  cases request with
  | start rootUri rootPath setting =>
    obtain rfl := Option.some.inj h
    exact ⟨rfl, by simp [handle, handleWith]⟩
  | configure setting =>
    cases setting with
    | none => cases h
    | some setting =>
      by_cases hs : setting = s.setting
      · simp [reloading?, hs] at h
      · obtain rfl : { s with setting } = t := by simpa [reloading?, hs] using h
        simp only [handle, handleWith, hs, if_false]
        exact ⟨rfl, by simp⟩
  | selectTable path =>
    obtain rfl := Option.some.inj h
    exact ⟨rfl, by simp [handle, handleWith]⟩
  | reloadTable =>
    obtain rfl := Option.some.inj h
    exact ⟨rfl, by simp [handle, handleWith]⟩
  | started | «open» | close | change | diagnose | willSave | hover | complete | resetTable | shutdown | exit => cases h

theorem basis_checkDocument (s : Session) (uri : Bytes) : (s.checkDocument uri).basis = s.basis := by
  rw [checkDocument_eq_mk]
  rfl

/-- A request that does not reload changes nothing of the three, or takes the built-in table and unsets the setting. -/
theorem basis_handle_of_eq_none (h : s.reloading? request = none) (read : Files.Reader) (id : Id) :
    (s.handle read id request).1.basis = s.basis ∨
      (s.handle read id request).1.basis = ⟨.builtIn, s.root, []⟩ := by
  cases request with
  | «open» uri language version text =>
    left
    simp only [handle, handleWith]
    split
    · exact basis_checkDocument _ _
    · rfl
  | change uri version texts =>
    left
    simp only [handle, handleWith]
    split
    · split
      · exact basis_checkDocument _ _
      · rfl
    · rfl
  | diagnose uri => exact .inl (basis_checkDocument s uri)
  | willSave uri =>
    left
    simp only [handle, handleWith]
    split
    · split <;> rfl
    · rfl
  | hover uri position =>
    left
    simp only [handle, handleWith]
    split <;> rfl
  | configure setting =>
    left
    cases setting with
    | none => rfl
    | some setting =>
      have hs : setting = s.setting := by simpa [reloading?] using h
      simp only [handle, handleWith, hs, if_true]
  | resetTable => exact .inr rfl
  | started | close | complete | shutdown | exit => exact .inl rfl
  | start | selectTable | reloadTable => cases h

/-! ## Coherence -/

/-- What reading files gave when a table was last loaded from a file. -/
def latestLoad? (s : Session) : List Step → Option Files.Reader
  | [] => none
  | (read, m) :: rest => (latestLoad? (s.receive read m).1 rest).or ((s.loading? m).map fun _ => read)

/-- The last message of a run is the latest load if it loads a file at all. -/
theorem latestLoad?_concat (steps : List Step) (read : Files.Reader) (m : Message) : ∀ s : Session,
    s.latestLoad? (steps ++ [(read, m)]) =
      (((s.run steps).1.loading? m).map fun _ => read).or (s.latestLoad? steps) := by
  induction steps with
  | nil => intro s; simp [latestLoad?, run]
  | cons step steps ih =>
    intro s
    simp only [List.cons_append, latestLoad?, ih, run, Option.or_assoc]

end Session

/-- The active table, the workspace and the setting fit together, where `latest` is what reading files gave at the
latest load. -/
structure IsCoherent (latest : Option Files.Reader) (s : Session) : Prop where
  /-- A table that comes from no file is the built-in one. -/
  builtIn : s.active.source = [] → s.active.isa = Isa.default
  /-- A table that comes from a file comes from the one that the setting names in the workspace, and is what this file
  described at the latest load. -/
  loaded : s.active.source ≠ [] → s.active.source = Path.resolve s.root s.setting ∧
    ∃ read ∈ latest, ∃ text, read s.active.source = .ok text ∧ s.active.isa = Description.parse text
  /-- Without a setting the built-in table is active. -/
  unset : s.setting = [] → s.active = .builtIn
  nonempty : s.active.isa.isEmpty = false
  kinds : ∀ mnemonic operands, s.active.isa.find? mnemonic = some operands →
    ∀ kind ∈ operands, kind ∈ [Kind.register, .number, .label, .based]

namespace IsCoherent

variable {latest : Option Files.Reader} {s s' : Session}

theorem mem_kinds (kind : Kind) : kind ∈ [Kind.register, .number, .label, .based] := by
  cases kind <;> decide

/-- The built-in table is coherent with every workspace and setting. -/
theorem of_builtIn (h : s.active = .builtIn) (latest : Option Files.Reader) : IsCoherent latest s := by
  refine ⟨fun _ => ?_, fun hs => ?_, fun _ => h, ?_, fun _ _ _ kind _ => mem_kinds kind⟩
  · rw [h]
    rfl
  · rw [h] at hs
    exact absurd rfl hs
  · rw [h]
    rfl

theorem of_basis_eq (h : IsCoherent latest s) (hb : s'.basis = s.basis) : IsCoherent latest s' := by
  obtain ⟨documents, active, root, setting, registrations⟩ := s
  obtain ⟨documents', active', root', setting', registrations'⟩ := s'
  obtain ⟨rfl, rfl, rfl⟩ := Session.Basis.mk.inj hb
  exact ⟨h.builtIn, h.loaded, h.unset, h.nonempty, h.kinds⟩

end IsCoherent

namespace Session

/-- A reload makes coherent whatever it finds. -/
theorem isCoherent_reload (t : Session) (read : Files.Reader) (latest : Option Files.Reader) :
    IsCoherent (if t.setting = [] then latest else some read) (t.reload read).1 := by
  by_cases hs : t.setting = []
  · rw [reload_of_eq_nil ((Path.resolve_eq_nil_iff _ _).2 hs)]
    exact .of_builtIn rfl _
  have hp := (Path.resolve_eq_nil_iff t.root t.setting).not.2 hs
  rw [if_neg hs]
  cases hl : Isa.load read (Path.resolve t.root t.setting) with
  | error e =>
    rw [reload_of_error hp hl]
    exact .of_builtIn rfl _
  | ok isa =>
    obtain ⟨text, htext, hisa, hne⟩ := Isa.load_eq_ok_iff.1 hl
    rw [reload_of_ok hp hl]
    exact ⟨fun h => absurd h hp, fun _ => ⟨rfl, read, rfl, text, htext, hisa⟩, fun h => absurd h hs, hne,
      fun _ _ _ kind _ => IsCoherent.mem_kinds kind⟩

/-- The user is told once how the load of a file went. -/
theorem noticesOf_reload {t : Session} (ht : t.setting ≠ []) (read : Files.Reader) :
    noticesOf (t.reload read).2 = [if (t.reload read).1.active.isDefault then .error else .info] := by
  have hp := (Path.resolve_eq_nil_iff t.root t.setting).not.2 ht
  cases hl : Isa.load read (Path.resolve t.root t.setting) with
  | error e =>
    rw [reload_of_error hp hl]
    rfl
  | ok isa =>
    have hdefault : Active.isDefault ⟨isa, Path.resolve t.root t.setting⟩ = false := by
      simpa [Active.isDefault] using hp
    rw [reload_of_ok hp hl]
    simp only [hdefault]
    rfl

theorem loading?_of_ok {s : Session} {m : Message} {request : Request} (h : Request.ofMessage m = .ok request) :
    s.loading? m = (s.reloading? request).filter (·.setting ≠ []) := by
  simp only [loading?, h]

/-- A message that loads a file tells the user once how that went. -/
theorem noticesOf_receive {s t : Session} {m : Message} (h : s.loading? m = some t) (read : Files.Reader) :
    noticesOf (s.receive read m).2 = [if (s.receive read m).1.active.isDefault then .error else .info] := by
  cases hm : Request.ofMessage m with
  | error refusal => simp [loading?, hm] at h
  | ok request =>
    rw [loading?_of_ok hm, Option.filter_eq_some_iff] at h
    obtain ⟨hb, hn⟩ := basis_handle_of_reloading? h.1 read (m.id.getD (.number 0))
    have ha : (s.handle read (m.id.getD (.number 0)) request).1.active = (t.reload read).1.active :=
      congrArg Basis.active hb
    rw [receive_of_ok hm, noticesOf_cons_of_ne (by simp), hn, ha]
    exact noticesOf_reload (by simpa using h.2) read

end Session

/-- Every message keeps the three coherent. -/
theorem IsCoherent.receive {latest : Option Files.Reader} {s : Session} (h : IsCoherent latest s) (read : Files.Reader)
    (m : Message) : IsCoherent (((s.loading? m).map fun _ => read).or latest) (s.receive read m).1 := by
  cases hm : Request.ofMessage m with
  | error refusal =>
    rw [Session.receive_of_error hm]
    simpa [Session.loading?, hm] using h
  | ok request =>
    rw [Session.receive_of_ok hm, Session.loading?_of_ok hm]
    cases hr : s.reloading? request with
    | none =>
      obtain hb | hb := Session.basis_handle_of_eq_none hr read (m.id.getD (.number 0))
      · exact h.of_basis_eq hb
      · exact .of_builtIn (congrArg Session.Basis.active hb) _
    | some t =>
      -- The reload alone decides, whatever `latest` was: it counts as the latest load just if a file was read.
      have hb := (Session.basis_handle_of_reloading? hr read (m.id.getD (.number 0))).1
      have ht := (t.isCoherent_reload read latest).of_basis_eq hb
      by_cases hs : t.setting = [] <;> simpa [hs, Option.filter_some] using ht

open Session in
theorem IsCoherent.run (steps : List Step) : IsCoherent (fresh.latestLoad? steps) (fresh.run steps).1 := by
  induction steps using List.reverseRecOn with
  | nil => exact .of_builtIn rfl _
  | append_singleton steps last ih =>
    rw [run_concat, latestLoad?_concat]
    exact ih.receive last.1 last.2

open Session in
/-- After every run the table, the workspace and the setting are coherent, and whatever message comes next, it tells the
user once if it loads a file: that the table of the file is active now, or that the built-in one is. -/
theorem isCoherent_run (steps : List Step) :
    IsCoherent (fresh.latestLoad? steps) (fresh.run steps).1 ∧
      ∀ (read : Files.Reader) (m : Message), ((fresh.run steps).1.loading? m).isSome →
        noticesOf ((fresh.run steps).1.receive read m).2 =
          [if ((fresh.run steps).1.receive read m).1.active.isDefault then .error else .info] := by
  refine ⟨.run steps, fun read m h => ?_⟩
  obtain ⟨t, ht⟩ := Option.isSome_iff_exists.1 h
  exact noticesOf_receive ht read

/-- The client opens a workspace and names a table in it. -/
def starting : Message :=
  ⟨utf8 "initialize", some (.number 0), some (.ofMembers [("rootPath", .string (utf8 "/w")),
    ("initializationOptions", .ofMembers [("isaFilePath", .string (utf8 "t"))])])⟩

/-- Every file declares one mnemonic. -/
def oneMnemonic : Files.Reader := fun _ => .ok (utf8 "nop : does nothing")

open Session in
theorem isCoherent_run_starting :
    (fresh.run [(oneMnemonic, starting)]).1.active.source = utf8 "/w/t" ∧
      IsCoherent (some oneMnemonic) (fresh.run [(oneMnemonic, starting)]).1 ∧
      noticesOf (fresh.receive oneMnemonic starting).2 = [.info] := by
  refine ⟨by rfl, ?_, ?_⟩
  · exact (isCoherent_run [(oneMnemonic, starting)]).1
  · exact (isCoherent_run []).2 oneMnemonic starting (by rfl)

/-! ## Selecting a table -/

namespace Session

variable (read : Files.Reader) (s : Session) (id : Id)

theorem root_setting_selectTable (p : Bytes) :
    (s.handle read id (.selectTable p)).1.root = s.root ∧
      (s.handle read id (.selectTable p)).1.setting = Path.relativeTo s.root p := by
  have hreloading : s.reloading? (.selectTable p) = some { s with setting := Path.relativeTo s.root p } := rfl
  have hbasis := (basis_handle_of_reloading? hreloading read id).1
  rw [reload_fst] at hbasis
  exact ⟨congrArg Basis.root hbasis, congrArg Basis.setting hbasis⟩

/-- Selecting an absolute path, whatever the workspace, stores a setting that names it. -/
theorem isSettingFor_selectTable {p : Bytes} (hp : Path.isAbsolute p = true) :
    (s.handle read id (.selectTable p)).1.root = s.root ∧
      (s.handle read id (.selectTable p)).1.setting = Path.relativeTo s.root p ∧
      Path.IsSettingFor s.root p (Path.relativeTo s.root p) := by
  obtain ⟨hroot, hsetting⟩ := root_setting_selectTable read s id p
  exact ⟨hroot, hsetting, Path.isSettingFor_relativeTo s.root hp⟩

/-- A path in a workspace, both written with components that cleaning removes, and with a name that begins with `..`. -/
theorem isSettingFor_selectTable_roundabout :
    Path.isAbsolute (utf8 "/home//w/./isa/..x/t.isa") = true ∧
      ({ fresh with root := utf8 "/home/u/../w/" }.handle (fun _ => .ok []) (.number 1)
        (.selectTable (utf8 "/home//w/./isa/..x/t.isa"))).1.setting = utf8 "isa/..x/t.isa" ∧
      Path.IsSettingFor (utf8 "/home/u/../w/") (utf8 "/home//w/./isa/..x/t.isa") (utf8 "isa/..x/t.isa") := by
  have hp : Path.isAbsolute (utf8 "/home//w/./isa/..x/t.isa") = true := by decide
  obtain ⟨-, hsetting, hnames⟩ :=
    isSettingFor_selectTable (fun _ => .ok []) { fresh with root := utf8 "/home/u/../w/" } (.number 1) hp
  have hway : Path.relativeTo (utf8 "/home/u/../w/") (utf8 "/home//w/./isa/..x/t.isa") = utf8 "isa/..x/t.isa" := by
    decide +kernel
  exact ⟨hp, hsetting.trans hway, hway ▸ hnames⟩

end Session

end Server

end AsmLens
