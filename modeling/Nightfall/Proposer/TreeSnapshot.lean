import Mathlib.Data.List.Infix
import Nightfall.Library.Store

/-! `tree_snapshot`: copies of the collections that make up the proposer's three trees. -/

namespace Nightfall.Proposer.TreeSnapshot

open Store Program List

inductive MongoCall where
  | aggregate (source dest : String)
  | drain (source dest : String)
  | count (collection : String)
  | drop (collection : String)

structure Mongo (D : Type) where
  collections : String → List D
  fault : MongoCall → Option String

namespace Mongo

variable {D : Type}

def put (db : Mongo D) (name : String) (documents : List D) : Mongo D :=
  { db with collections := Function.update db.collections name documents }

def Sound (db : Mongo D) : Prop := ∀ call, db.fault call = none

end Mongo

def treeCollections : List String :=
  (["Commitments", "Nullifiers", "historic_root_tree"].flatMap fun tree =>
    [s!"{tree}_metadata", s!"{tree}_nodes", s!"{tree}_cache"]) ++ ["Nullifiers_indexed_leaves"]

def backupName (collection suffix : String) : String := s!"{collection}__snap_{suffix}"

section

variable {D : Type} (suffix : String)

def called (call : MongoCall) (message : String → String) : Program String (Mongo D) Unit :=
  reads fun db => match db.fault call with
    | some error => .error (message error)
    | none => .ok ()

def copyCollection (source dest : String) : Program String (Mongo D) Unit := do
  called (.aggregate source dest) fun e => s!"aggregate $out {source}->{dest} failed: {e}"
  writes fun db => db.put dest (db.collections source)
  called (.drain source dest) fun e => s!"draining $out cursor {source}->{dest} failed: {e}"

def count (collection : String) : Program String (Mongo D) ℕ := do
  called (.count collection) fun e => s!"count {collection} failed: {e}"
  reads fun db => .ok (db.collections collection).length

def dropCollection (collection : String) : Program String (Mongo D) Unit := do
  called (.drop collection) fun e => s!"drop {collection} failed: {e}"
  writes fun db => db.put collection []

def snapshotCollection (suffix collection : String) : Program String (Mongo D) Unit := do
  dropCollection (backupName collection suffix)
  if 0 < (← count collection) then copyCollection collection (backupName collection suffix)

def snapshot : Program String (Mongo D) Unit :=
  treeCollections.forM (snapshotCollection suffix)

def restoreCollection (suffix collection : String) : Program String (Mongo D) Unit := do
  if 0 < (← count (backupName collection suffix)) then
    copyCollection (backupName collection suffix) collection
  else dropCollection collection

def restore : Program String (Mongo D) Unit :=
  treeCollections.forM (restoreCollection suffix)

def dropSnapshot : Program String (Mongo D) Unit :=
  treeCollections.forM fun collection => dropCollection (backupName collection suffix)

end

section

theorem backupName_toList (collection suffix : String) :
    (backupName collection suffix).toList = (collection ++ "__snap_").toList ++ suffix.toList := by
  simp [backupName, toString]

theorem treeCollections_apart : ∀ first ∈ treeCollections, ∀ second ∈ treeCollections,
    (first ++ "__snap_").toList <+: (second ++ "__snap_").toList → first = second := by
  decide +kernel

theorem treeCollections_unmarked : ∀ first ∈ treeCollections, ∀ second ∈ treeCollections,
    ¬(first ++ "__snap_").toList <+: second.toList := by
  decide +kernel

theorem treeCollections_nodup : treeCollections.Nodup := by decide +kernel

variable {first second : String}

variable (isFirst : first ∈ treeCollections) (isSecond : second ∈ treeCollections)
include isFirst isSecond

theorem backupName_ne (suffix : String) : second ≠ backupName first suffix := by
  intro same
  apply treeCollections_unmarked first isFirst second isSecond
  rw [same, backupName_toList]
  exact prefix_append _ _

theorem backupName_inj {suffix other : String} (same : backupName first suffix = backupName second other) :
    first = second ∧ suffix = other := by
  have lists := congrArg String.toList same
  rw [backupName_toList, backupName_toList] at lists
  have sameName : first = second := by
    have left : (first ++ "__snap_").toList <+: (second ++ "__snap_").toList ++ other.toList :=
      lists ▸ prefix_append _ _
    rcases prefix_or_prefix_of_prefix left (prefix_append _ _) with shorter | longer
    · exact treeCollections_apart first isFirst second isSecond shorter
    · exact (treeCollections_apart second isSecond first isFirst longer).symm
  subst sameName
  exact ⟨rfl, String.toList_injective (append_cancel_left lists)⟩

end

section

variable {D : Type} {db : Mongo D}

theorem Mongo.Sound.put (sound : db.Sound) (name : String) (documents : List D) : (db.put name documents).Sound :=
  sound

@[simp] theorem put_same (name : String) (documents : List D) :
    (db.put name documents).collections name = documents := Function.update_self ..

theorem put_other {name other : String} (different : other ≠ name) (documents : List D) :
    (db.put name documents).collections other = db.collections other := Function.update_of_ne different ..

theorem put_put (name : String) (first second : List D) : (db.put name first).put name second = db.put name second := by
  simp [Mongo.put]

variable (sound : db.Sound)
include sound

theorem called_run (call : MongoCall) (message : String → String) : (called call message).run db = (.ok (), db) := by
  rw [called, reads_run, sound call]

theorem copyCollection_run (source dest : String) :
    (copyCollection source dest).run db = (.ok (), db.put dest (db.collections source)) := by
  rw [copyCollection, bind_ok (called_run sound _ _), bind_ok (writes_run _ _), called_run (sound.put _ _)]

theorem count_run (collection : String) :
    (count collection).run db = (.ok (db.collections collection).length, db) := by
  rw [count, bind_ok (called_run sound _ _), reads_run]

theorem dropCollection_run (collection : String) :
    (dropCollection collection).run db = (.ok (), db.put collection []) := by
  rw [dropCollection, bind_ok (called_run sound _ _), writes_run]

theorem snapshotCollection_run {suffix collection : String} (different : collection ≠ backupName collection suffix) :
    (snapshotCollection suffix collection).run db =
      (.ok (), db.put (backupName collection suffix) (db.collections collection)) := by
  rw [snapshotCollection, bind_ok (dropCollection_run sound _), bind_ok (count_run (sound.put _ _) _),
    put_other different]
  split
  · rw [copyCollection_run (sound.put _ _), put_other different, put_put]
  · rename_i empty
    rw [Nat.not_lt, Nat.le_zero, length_eq_zero_iff] at empty
    rw [pure_run, empty]

theorem restoreCollection_run (suffix collection : String) : (restoreCollection suffix collection).run db =
      (.ok (), db.put collection (db.collections (backupName collection suffix))) := by
  rw [restoreCollection, bind_ok (count_run sound _)]
  split
  · rw [copyCollection_run sound]
  · rename_i empty
    rw [Nat.not_lt, Nat.le_zero, length_eq_zero_iff] at empty
    rw [dropCollection_run sound, empty]

end

section

variable {D : Type}

/-- The collections named by `target` hold `value`, and every other one what it held before. -/
structure Copied (names : List String) (target : String → String) (value : String → List D)
    (before after : Mongo D) : Prop where
  sound : after.Sound
  inside : ∀ name ∈ names, after.collections (target name) = value name
  outside : ∀ other, (∀ name ∈ names, other ≠ target name) → after.collections other = before.collections other

theorem forM_copied {names : List String} (target : String → String) (value : String → List D)
    (body : String → Program String (Mongo D) Unit) {db : Mongo D} (sound : db.Sound) (nodup : names.Nodup)
    (distinct : ∀ first ∈ names, ∀ second ∈ names, target first = target second → first = second)
    (each : ∀ now : Mongo D, now.Sound →
      (∀ other, (∀ name ∈ names, other ≠ target name) → now.collections other = db.collections other) →
      ∀ name ∈ names, (body name).run now = (.ok (), now.put (target name) (value name))) :
    ∃ after, (names.forM body).run db = (.ok (), after) ∧ Copied names target value db after := by
  induction names generalizing db with
  | nil => exact ⟨db, rfl, sound, by simp, fun _ _ => rfl⟩
  | cons name rest ih =>
    obtain ⟨notRest, restNodup⟩ := nodup_cons.mp nodup
    have first := each db sound (fun _ _ => rfl) name mem_cons_self
    have apart : ∀ other ∈ rest, target name ≠ target other := by
      intro other member same
      exact notRest (distinct name mem_cons_self other (mem_cons_of_mem _ member) same ▸ member)
    obtain ⟨after, ran, copied⟩ := ih (sound.put (target name) (value name)) restNodup
      (fun one isOne two isTwo => distinct one (mem_cons_of_mem _ isOne) two (mem_cons_of_mem _ isTwo))
      (by
        intro now isSound agrees other member
        refine each now isSound ?_ other (mem_cons_of_mem _ member)
        intro key unwritten
        rw [agrees key fun inner isInner => unwritten inner (mem_cons_of_mem _ isInner),
          put_other (unwritten name mem_cons_self)])
    refine ⟨after, ?_, copied.sound, ?_, ?_⟩
    · rw [forM_eq_forM, forM_cons, bind_ok first]
      exact ran
    · intro other member
      rcases mem_cons.mp member with isFirst | inRest
      · rw [isFirst, copied.outside _ apart, put_same]
      · exact copied.inside other inRest
    · intro other unwritten
      rw [copied.outside other fun inner isInner => unwritten inner (mem_cons_of_mem _ isInner),
        put_other (unwritten name mem_cons_self)]

end

abbrev Contents (D : Type) := { name // name ∈ treeCollections } → List D

section

variable {D : Type} (contents : Contents D) (db : Mongo D)

def treeContents : Contents D := fun name => db.collections name.1

def backupContents (suffix : String) : Contents D := fun name =>
  db.collections (backupName name.1 suffix)

def noBackup : Contents D := fun _ => []

def replaceTrees : Mongo D :=
  { db with collections := fun name =>
      if isTree : name ∈ treeCollections then contents ⟨name, isTree⟩ else db.collections name }

theorem replaceTrees_treeContents : treeContents (replaceTrees contents db) = contents := by
  funext name
  simp only [treeContents, replaceTrees, dif_pos name.2]

theorem replaceTrees_backupContents (suffix : String) :
    backupContents (replaceTrees contents db) suffix = backupContents db suffix := by
  funext name
  have notTree : backupName name.1 suffix ∉ treeCollections := fun isTree => backupName_ne name.2 isTree suffix rfl
  simp only [backupContents, replaceTrees, dif_neg notTree]

theorem Copied.backups {db after : Mongo D} {suffix : String} {value : String → List D}
    (copied : Copied treeCollections (fun name => backupName name suffix) value db after) :
    treeContents after = treeContents db ∧ backupContents after suffix = (fun name => value name.1) ∧
      ∀ other, other ≠ suffix → backupContents after other = backupContents db other := by
  refine ⟨?_, ?_, ?_⟩
  · funext name
    exact copied.outside name.1 fun other isOther => backupName_ne isOther name.2 suffix
  · funext name
    exact copied.inside name.1 name.2
  · intro other different
    funext name
    refine copied.outside _ ?_
    intro collection isCollection same
    exact different (backupName_inj name.2 isCollection same).2

variable {db : Mongo D} (sound : db.Sound) (suffix : String)
include sound suffix

theorem snapshot_run :
    ∃ after, (snapshot suffix).run db = (.ok (), after) ∧ after.Sound ∧ treeContents after = treeContents db ∧
      backupContents after suffix = treeContents db ∧
      ∀ other, other ≠ suffix → backupContents after other = backupContents db other := by
  obtain ⟨after, ran, copied⟩ := forM_copied (fun name => backupName name suffix) db.collections
    (snapshotCollection suffix) sound treeCollections_nodup
    (fun first isFirst second isSecond same => (backupName_inj isFirst isSecond same).1)
    (by
      intro now isSound agrees name member
      have unwritten : ∀ other ∈ treeCollections, name ≠ backupName other suffix :=
        fun other isOther => backupName_ne isOther member suffix
      rw [snapshotCollection_run isSound (unwritten name member), agrees name unwritten])
  exact ⟨after, ran, copied.sound, copied.backups⟩

theorem restore_run :
    ∃ after, (restore suffix).run db = (.ok (), after) ∧ after.Sound ∧ treeContents after = backupContents db suffix ∧
      ∀ other, backupContents after other = backupContents db other := by
  obtain ⟨after, ran, copied⟩ := forM_copied (fun name => name)
    (fun name => db.collections (backupName name suffix)) (restoreCollection suffix) sound
    treeCollections_nodup (fun first _ second _ same => same)
    (by
      intro now isSound agrees name member
      rw [restoreCollection_run isSound, agrees (backupName name suffix)
        fun other isOther => (backupName_ne member isOther suffix).symm])
  refine ⟨after, ran, copied.sound, ?_, ?_⟩
  · funext name
    exact copied.inside name.1 name.2
  · intro other
    funext name
    exact copied.outside _ fun collection isCollection => (backupName_ne name.2 isCollection other).symm

theorem dropSnapshot_run :
    ∃ after, (dropSnapshot suffix).run db = (.ok (), after) ∧ after.Sound ∧ treeContents after = treeContents db ∧
      backupContents after suffix = noBackup ∧
      ∀ other, other ≠ suffix → backupContents after other = backupContents db other := by
  obtain ⟨after, ran, copied⟩ := forM_copied (fun name => backupName name suffix)
    (fun _ => []) (fun name => dropCollection (backupName name suffix)) sound
    treeCollections_nodup (fun first isFirst second isSecond same => (backupName_inj isFirst isSecond same).1)
    (fun now isSound _ name _ => dropCollection_run isSound _)
  exact ⟨after, ran, copied.sound, copied.backups⟩

end

end Nightfall.Proposer.TreeSnapshot
