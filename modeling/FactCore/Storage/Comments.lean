import FactCore.Lib.Run
import FactCore.Storage.Histories

/-!
# Comments of users

`src/src/storage/db_interface_frontend_editing.py`. The frontend appends a
comment to the list of a stored object, or takes the comments of one time stamp
out of it. The backend writes the whole list whenever it adds the object again,
from the copy that travels with the object through an analysis.

Results:
1. `comments_addObject_eq`: what one `add_object` does to the comments.
2. `comments_kept_iff`: a run shows exactly the edits of the users if and only if
   each object that is written carries the comments that are stored at that time.
3. `comment_lost_during_analysis`: a comment that is made while the object is
   analysed is lost.
-/

namespace FactCore

/-- The comment that `add_comment_to_object` appends. -/
def newComment (comment author : String) (time : Int) : Comment := ⟨author, comment, toString time⟩

/-- A session that changes the comments of the row `uid`. -/
def editComments (db : Db) (uid : Uid) (edit : List Comment → List Comment) : Outcome :=
  readWriteSession db <|
    match db.fileObjects.get? uid with
    | none => .error (.attributeError "'NoneType' object has no attribute 'comments'")
    | some foEntry => .ok { db with
        fileObjects := db.fileObjects.set uid { foEntry with comments := edit foEntry.comments } }

/-- `add_comment_to_object`. -/
def addCommentToObject (db : Db) (uid : Uid) (comment author : String) (time : Int) : Outcome :=
  editComments db uid fun comments => comments ++ [newComment comment author time]

/-- `delete_comment`. -/
def deleteComment (db : Db) (uid : Uid) (timestamp : String) : Outcome :=
  editComments db uid fun comments => comments.filter fun c => decide (c.time ≠ timestamp)

/-- The transactions of the frontend and of the backend. -/
inductive CommentOp
  | addComment (uid : Uid) (comment author : String) (time : Int)
  | deleteComment (uid : Uid) (timestamp : String)
  | addObject (fo : FileObject)

/-- The database after a transaction. -/
def commentStep (driver : Driver) (db : Db) : CommentOp → Db
  | .addComment uid comment author time => (addCommentToObject db uid comment author time).db
  | .deleteComment uid timestamp => (deleteComment db uid timestamp).db
  | .addObject fo => (addObject driver db fo).db

/-- What an edit does to the comments of `uid`. -/
def applyEdit (uid : Uid) (comments : List Comment) : CommentOp → List Comment
  | .addComment u comment author time =>
    if u = uid then comments ++ [newComment comment author time] else comments
  | .deleteComment u timestamp =>
    if u = uid then comments.filter fun c => decide (c.time ≠ timestamp) else comments
  | .addObject _ => comments

/-- The comments of `uid` after the edits among `ops`, in their order. -/
def editedComments (uid : Uid) (initial : List Comment) (ops : List CommentOp) : List Comment :=
  ops.foldl (applyEdit uid) initial

/-- The stored comments of `uid`. -/
def Db.comments (db : Db) (uid : Uid) : Option (List Comment) :=
  (db.fileObjects.get? uid).map FileObjectEntry.comments

/-- If the step writes the row of `uid` from an object, this object carries the stored comments.
An object is written unless it is a firmware without a firmware row or with a release date that is
refused, or misses references. -/
def WritesStoredComments (driver : Driver) (uid : Uid) (db : Db) : CommentOp → Prop
  | .addObject fo => fo.uid = uid → UpdatesFirmware driver db fo → ¬ RefsMissing db fo →
      db.comments uid = some fo.comments
  | _ => True

section Comments
variable {driver : Driver} {db : Db} {uid : Uid} {comments : List Comment}

/-! ## 1. One transaction -/

theorem comments_editComments (h : db.comments uid = some comments) (u : Uid)
    (edit : List Comment → List Comment) :
    (editComments db u edit).db.comments uid = some (if u = uid then edit comments else comments) := by
  unfold editComments
  cases hrow : db.fileObjects.get? u with
  | none =>
    have hne : u ≠ uid := by
      rintro rfl
      simp [Db.comments, hrow] at h
    rw [readWriteSession_error, if_neg hne, h]
  | some foEntry =>
    rw [readWriteSession_ok]
    unfold Db.comments
    rcases eq_or_ne u uid with rfl | hne
    · rw [Db.comments, hrow, Option.map_some, Option.some.injEq] at h
      rw [Dict.get?_set_self, Option.map_some, if_pos rfl, h]
    · rw [Dict.get?_set_of_ne _ hne.symm, if_neg hne]
      exact h

/-- Adding another object leaves the comments of `uid` alone. -/
theorem comments_addObject_of_ne {fo : FileObject} (hne : fo.uid ≠ uid) :
    (addObject driver db fo).db.comments uid = db.comments uid := by
  unfold Db.comments
  cases h : (addObject driver db fo).raised with
  | none =>
    obtain ⟨row, hrows, -⟩ := (addObject_added h).row
    rw [hrows, Dict.get?_set_of_ne _ hne.symm]
  | some e => rcases addObject_failed h with heq | ⟨-, -, -, row, -, heq⟩ <;> rw [heq]; rfl

/-- Adding a stored object leaves its comments alone exactly if it carries them, or fails. -/
theorem comments_addObject_eq {fo : FileObject} (h : db.comments fo.uid = some comments) :
    (addObject driver db fo).db.comments fo.uid = some comments ↔
      WritesStoredComments driver fo.uid db (.addObject fo) := by
  obtain ⟨entry, hentry, hcomments⟩ := Option.map_eq_some_iff.mp h
  have hwrites : WritesStoredComments driver fo.uid db (.addObject fo) ↔
      (UpdatesFirmware driver db fo → ¬ RefsMissing db fo → comments = fo.comments) := by
    simp [WritesStoredComments, h]
  have hraised := addObject_stored_raised_iff driver (Dict.mem_of_get? hentry)
  rw [hwrites]
  cases hr : (addObject driver db fo).raised with
  | some e =>
    rw [hr] at hraised
    have hkept : (addObject driver db fo).db.comments fo.uid = some comments := by
      rw [Db.comments, fileObjects_addObject_of_failed hr]
      exact h
    refine iff_of_true hkept fun hfw hmiss => ?_
    cases hraised.mpr ⟨hfw, hmiss⟩
  | none =>
    obtain ⟨hfw, hmiss⟩ := hraised.mp hr
    -- the row is written from the object
    have hwritten : (addObject driver db fo).db.comments fo.uid = some fo.comments := by
      obtain ⟨row, hrows, hrow⟩ := (addObject_added hr).row
      rw [Db.comments, hrows, Dict.get?_set_self, Option.map_some, hrow.comments]
    rw [hwritten, Option.some.injEq]
    exact ⟨fun heq _ _ => heq.symm, fun hw => (hw hfw hmiss).symm⟩

theorem comments_step_iff {op : CommentOp} (h : db.comments uid = some comments) :
    (commentStep driver db op).comments uid = some (applyEdit uid comments op) ↔
      WritesStoredComments driver uid db op := by
  cases op with
  | addComment u comment author time =>
    exact iff_of_true (comments_editComments h u _) trivial
  | deleteComment u timestamp => exact iff_of_true (comments_editComments h u _) trivial
  | addObject fo =>
    rcases eq_or_ne fo.uid uid with rfl | hne
    · exact comments_addObject_eq h
    · exact iff_of_true ((comments_addObject_of_ne hne).trans h) fun huid => absurd huid hne

end Comments

/-! ## 2. Whole runs -/

/-- Every prefix of a run leaves the comments of a stored object as its edits make them exactly if
each step that writes the object writes the comments that are stored. -/
theorem comments_kept_iff {driver : Driver} {db : Db} {uid : Uid} {initial : List Comment}
    (h : db.comments uid = some initial) (ops : List CommentOp) :
    (∀ pre suf, ops = pre ++ suf → (pre.foldl (commentStep driver) db).comments uid =
        some (editedComments uid initial pre)) ↔
      Run (Restrict (WritesStoredComments driver uid) (Deterministic (commentStep driver))) db ops
        (ops.foldl (commentStep driver) db) := by
  refine Run.forall_fold_iff (fun pre (s : Db) =>
    s.comments uid = some (editedComments uid initial pre)) (fun pre s op hs => ?_) h
  show _ = some ((pre ++ [op]).foldl (applyEdit uid) initial) ↔ _
  rw [List.foldl_append]
  exact comments_step_iff hs

/-- A user makes a comment and deletes it again. -/
def shortComment : List CommentOp :=
  [.addComment "inner" "look at this" "user" 7, .deleteComment "inner" "7"]

/-- The deleted comment leaves no trace. -/
theorem comment_deleted_again :
    (shortComment.foldl (commentStep acceptAll) uploadedDb).comments "inner" = some [] := by
  have hinitial : uploadedDb.comments "inner" = some [] := by decide
  have hrun : Run (Restrict (WritesStoredComments acceptAll "inner")
      (Deterministic (commentStep acceptAll))) uploadedDb shortComment
      (shortComment.foldl (commentStep acceptAll) uploadedDb) :=
    .cons ⟨trivial, rfl⟩ (.cons ⟨trivial, rfl⟩ (.nil _))
  exact (comments_kept_iff hinitial shortComment).mpr hrun shortComment [] rfl

/-- A comment that is made between two plugins of an analysis is lost with the next one. -/
theorem comment_lost_during_analysis :
    ¬ ∀ (db : Db) (uid : Uid) (initial : List Comment) (ops : List CommentOp),
      db.comments uid = some initial →
        (ops.foldl (commentStep acceptAll) db).comments uid =
          some (editedComments uid initial ops) := by
  intro h
  have hinitial : uploadedDb.comments "inner" = some [] := by decide
  have hlost := h _ "inner" []
    [.addComment "inner" "look at this" "user" 7, .addObject innerFile] hinitial
  revert hlost
  decide

end FactCore
