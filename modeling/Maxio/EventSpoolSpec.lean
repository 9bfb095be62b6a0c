import Maxio.EventSpool

/-!
What becomes of the records in the spool. As long as no drain reads a file that is not written to its end, nor one whose
receiver is not internal, none is lost before a receiver has taken it.
-/

namespace Maxio

theorem spool_name_inj {id id' : String} (same : spool_name id = spool_name id') : id = id' := by
  have lists := congrArg String.toList same
  rw [spool_name,spool_name,String.toList_append,String.toList_append] at lists
  exact String.toList_inj.mp (List.append_cancel_right lists)

theorem read_to_string_utf8 (s : String) : read_to_string (utf8 s) = some s := by
  have bytes : (utf8 s).toByteArray = s.toByteArray := by
    rw [← String.utf8Encode_toList]
    rfl
  rw [read_to_string,bytes,String.fromUTF8?,dif_pos s.isValidUTF8]
  rfl

/-- What the file of an enqueue holds while no drain has touched it. -/
def Writing.shown (text : Bytes) : Writing → Option Bytes
  | .opening => none
  | .filling written => some (text.take written)
  | .ended ok => if ok then some text else none

namespace EventSpool
variable (P : EventPrimitives EventRecord) ( allow_external_webhooks : Bool)

/-- What a drain reads is the whole record of the enqueue that makes the file, and its receiver is internal. Nothing is
    asked of the file of an enqueue that has failed. -/
def Clear (s : EventSpool) : SpoolEvent → Prop
  | .visit _ name => ∀ id record phase text, s.enqueues id = some ⟨record,phase⟩ → name = spool_name id →
      phase ≠ .ended false → (s.files name).bind read_to_string = some text →
        text = P.to_string_pretty record ∧ validate_webhook_url P record.webhook_url false = .ok ()
  | _ => True

/-- What a drain reads is the whole record of the enqueue that makes the file. -/
def Whole (s : EventSpool) : SpoolEvent → Prop
  | .visit _ name => ∀ id record phase text, s.enqueues id = some ⟨record,phase⟩ → name = spool_name id →
      phase ≠ .ended false → (s.files name).bind read_to_string = some text → text = P.to_string_pretty record
  | _ => True

/-- Every step of the run meets the condition. -/
def Throughout (Q : EventSpool → SpoolEvent → Prop) : EventSpool → List SpoolEvent → Prop
  | _,[] => True
  | s,event :: rest => Q s event ∧ Throughout Q (s.step P allow_external_webhooks event) rest

/-- Every receiver has been accepted: those of the configurations, and those of the records. -/
structure Accepted (s : EventSpool) : Prop where
  configured : ∀ bucket config, s.notifications bucket = some config →
    validate_webhook_url P config.webhook_url allow_external_webhooks = .ok ()
  recorded : ∀ id e, s.enqueues id = some e → validate_webhook_url P e.record.webhook_url allow_external_webhooks = .ok ()

/-- What a drain has in hand: a file to be removed is that of a failed enqueue, or of a delivered record; a record to be
    posted is that of its file. -/
def Holds (s : EventSpool) : Draining → Prop
  | .next_entry => True
  | .removing name => ∃ id e, name = spool_name id ∧ s.enqueues id = some e ∧
      (e.phase = .ended false ∨ e.record ∈ s.delivered)
  | .posting name record => ∃ id e, name = spool_name id ∧ s.enqueues id = some e ∧
      (e.phase = .ended false ∨ e.record = record)

/-- What holds at every step of a careful run. -/
structure Inv (s : EventSpool) : Prop where
  owned : ∀ name data, s.files name = some data → ∃ id e, name = spool_name id ∧ s.enqueues id = some e
  kept : ∀ id e data, s.enqueues id = some e → e.phase.shown (text P e.record) = some data →
    e.record ∈ s.delivered ∨ s.files (spool_name id) = some data
  held : ∀ drain, s.Holds (s.drains drain)

variable {P allow_external_webhooks} {s : EventSpool}

theorem start_inv : (start).Inv P := by
  refine ⟨?_,?_,?_⟩
  · intro name data none
    cases none
  · intro id e data none
    cases none
  · intro drain
    exact trivial

theorem Inv.lossless (inv : s.Inv P) : s.Lossless P := by
  intro id record done
  exact inv.kept id _ _ done rfl

/-! ### Enqueues -/

/-- One enqueue begins or goes on, and its file with it. -/
theorem Inv.moved (inv : s.Inv P) {id : String} {record : EventRecord} {phase : Writing} {file : Option Bytes}
    (same : ∀ e, s.enqueues id = some e → e.record = record ∧ e.phase ≠ .ended false)
    (shows : ∀ data, phase.shown (text P record) = some data → record ∈ s.delivered ∨ file = some data) :
    Inv P { s with
      enqueues := Function.update s.enqueues id (some ⟨record,phase⟩)
      files := Function.update s.files (spool_name id) file } := by
  have others : ∀ id' e, s.enqueues id' = some e →
      ∃ e', Function.update s.enqueues id (some ⟨record,phase⟩) id' = some e' ∧ e'.record = e.record ∧
        (e.phase = .ended false → e' = e) := by
    intro id' e known
    by_cases mine : id' = id
    · subst mine
      obtain ⟨recorded,alive⟩ := same e known
      refine ⟨_,Function.update_self _ _ _,recorded.symm,?_⟩
      intro failed
      exact absurd failed alive
    · refine ⟨e,?_,rfl,fun _ => rfl⟩
      rw [Function.update_of_ne mine]
      exact known
  refine ⟨?_,?_,?_⟩
  · intro name data there
    by_cases mine : name = spool_name id
    · exact ⟨id,_,mine,Function.update_self _ _ _⟩
    · have before : s.files name = some data := by
        rw [← there]
        exact (Function.update_of_ne mine _ _).symm
      obtain ⟨id',e,named,known⟩ := inv.owned name data before
      obtain ⟨e',known',_⟩ := others id' e known
      exact ⟨id',e',named,known'⟩
  · intro id' e data known shown
    change Function.update s.enqueues id (some ⟨record,phase⟩) id' = some e at known
    by_cases mine : id' = id
    · subst mine
      rw [Function.update_self] at known
      cases known
      refine (shows data shown).imp_right ?_
      rintro rfl
      exact Function.update_self _ _ _
    · rw [Function.update_of_ne mine] at known
      refine (inv.kept id' e data known shown).imp_right ?_
      intro there
      rw [← there]
      apply Function.update_of_ne
      intro equal
      exact mine (spool_name_inj equal)
  · intro drain
    have held := inv.held drain
    change Holds _ (s.drains drain)
    cases hand : s.drains drain with
    | next_entry => exact trivial
    | removing name =>
      rw [hand] at held
      obtain ⟨id',e,named,known,why⟩ := held
      obtain ⟨e',known',recorded,failed⟩ := others id' e known
      refine ⟨id',e',named,known',?_⟩
      rcases why with ended | taken
      · rw [failed ended]
        exact .inl ended
      · rw [recorded]
        exact .inr taken
    | posting name posted =>
      rw [hand] at held
      obtain ⟨id',e,named,known,why⟩ := held
      obtain ⟨e',known',recorded,failed⟩ := others id' e known
      refine ⟨id',e',named,known',?_⟩
      rcases why with ended | read
      · rw [failed ended]
        exact .inl ended
      · rw [recorded]
        exact .inr read

/-- An enqueue goes on and leaves its file as it is. -/
theorem Inv.proceed (inv : s.Inv P) {id : String} {e : Enqueue} {phase : Writing} (known : s.enqueues id = some e)
    (alive : e.phase ≠ .ended false)
    (shows : ∀ data, phase.shown (text P e.record) = some data → e.phase.shown (text P e.record) = some data) :
    (s.proceed id e phase).Inv P := by
  have step := @Inv.moved P s inv id e.record phase (s.files (spool_name id)) ?_ ?_
  · rw [Function.update_eq_self] at step
    exact step
  · intro e' known'
    rw [known] at known'
    cases known'
    exact ⟨rfl,alive⟩
  · intro data shown
    exact inv.kept id e data known (shows data shown)

theorem Inv.emit (inv : s.Inv P) (bucket : String) (record : BucketNotificationConfig → Option EventRecord) :
    (s.emit bucket record).Inv P := by
  unfold EventSpool.emit
  split
  next record emitted =>
    unfold EventSpool.enqueue
    split
    next => exact inv
    next fresh =>
      have step := @Inv.moved P s inv record.id record .opening (s.files (spool_name record.id)) ?_ ?_
      · rw [Function.update_eq_self] at step
        exact step
      · intro e known
        rw [fresh] at known
        cases known
      · intro data shown
        cases shown
  next => exact inv

theorem Inv.create (inv : s.Inv P) (id : String) (ok : Bool) :
    (s.step P allow_external_webhooks (.create id ok)).Inv P := by
  rw [step]
  split
  next record known =>
    cases ok with
    | true =>
      apply inv.moved
      · intro e known'
        rw [known] at known'
        cases known'
        exact ⟨rfl,by simp⟩
      · intro data shown
        cases shown
        exact .inr (by rw [List.take_zero])
    | false => exact inv.proceed known (by simp) fun data shown => by cases shown
  next => exact inv

theorem Inv.write (inv : s.Inv P) (id : String) (bytes : Nat) :
    (s.step P allow_external_webhooks (.write id bytes)).Inv P := by
  rw [step]
  split
  next record written known =>
    apply inv.moved
    · intro e known'
      rw [known] at known'
      cases known'
      exact ⟨rfl,by simp⟩
    · intro data shown
      cases shown
      refine (inv.kept id _ _ known rfl).imp_right ?_
      intro there
      rw [there]
      rfl
  next => exact inv

theorem Inv.finish (inv : s.Inv P) (id : String) (ok : Bool) :
    (s.step P allow_external_webhooks (.finish id ok)).Inv P := by
  rw [step]
  split
  next record written known =>
    split
    next => exact inv
    next whole =>
      apply inv.proceed known (by simp)
      intro data shown
      cases ok with
      | false => cases shown
      | true =>
        have all : (text P record).length ≤ written := by
          by_contra short
          exact whole ⟨rfl,by omega⟩
        rw [← shown,Writing.shown,List.take_of_length_le all]
        rfl
  next => exact inv

/-! ### Drains -/

/-- A drain takes something else in hand. -/
theorem Inv.drained (inv : s.Inv P) {drain : Nat} {next : Draining} (holds : s.Holds next) :
    (s.drained drain next).Inv P := by
  refine ⟨inv.owned,inv.kept,?_⟩
  intro other
  change s.Holds (Function.update s.drains drain next other)
  by_cases mine : other = drain
  · subst mine
    rw [Function.update_self]
    exact holds
  · rw [Function.update_of_ne mine]
    exact inv.held other

/-- A clear visit takes the record of the file in hand, unless its enqueue has failed. -/
theorem Inv.visit (faithful : P.Faithful) (inv : s.Inv P) (drain : Nat) (name : String)
    (clear : s.Clear P (.visit drain name)) : (s.step P allow_external_webhooks (.visit drain name)).Inv P := by
  rw [step]
  split
  next =>
    split
    next => exact inv
    next =>
      split
      next => exact inv
      next content found =>
        apply inv.drained
        obtain ⟨data,there,_⟩ := Option.bind_eq_some_iff.mp found
        obtain ⟨id,e,named,known⟩ := inv.owned name data there
        by_cases failed : e.phase = .ended false
        · unfold judge
          split
          next => exact ⟨id,e,named,known,.inl failed⟩
          next =>
            split
            · exact ⟨id,e,named,known,.inl failed⟩
            · exact ⟨id,e,named,known,.inl failed⟩
        · obtain ⟨whole,internal⟩ := clear id e.record e.phase content known named failed found
          have parsed : P.from_str content = some e.record := by
            rw [whole]
            exact faithful e.record
          rw [judge,parsed]
          dsimp only
          rw [internal]
          exact ⟨id,e,named,known,.inr rfl⟩
  next => exact inv

/-- The more is delivered, the less there is to keep. -/
theorem Inv.respond (inv : s.Inv P) (drain : Nat) (success : Bool) :
    (s.step P allow_external_webhooks (.respond drain success)).Inv P := by
  rw [step]
  split
  next name record hand =>
    cases success with
    | false => exact inv.drained trivial
    | true =>
      have more : Inv P { s with delivered := record :: s.delivered } := by
        refine ⟨inv.owned,?_,?_⟩
        · intro id e data known shown
          exact (inv.kept id e data known shown).imp_left (List.mem_cons_of_mem _)
        · intro other
          have held := inv.held other
          change Holds _ (s.drains other)
          cases own : s.drains other with
          | next_entry => exact trivial
          | removing name =>
            rw [own] at held
            obtain ⟨id,e,named,known,why⟩ := held
            exact ⟨id,e,named,known,why.imp_right (List.mem_cons_of_mem _)⟩
          | posting name posted =>
            rw [own] at held
            exact held
      apply more.drained
      have held := inv.held drain
      rw [hand] at held
      obtain ⟨id,e,named,known,why⟩ := held
      refine ⟨id,e,named,known,why.imp_right ?_⟩
      rintro rfl
      exact List.mem_cons_self
  next => exact inv

theorem Inv.remove (inv : s.Inv P) (drain : Nat) (ok : Bool) :
    (s.step P allow_external_webhooks (.remove drain ok)).Inv P := by
  rw [step]
  split
  next name hand =>
    cases ok with
    | false => exact inv.drained trivial
    | true =>
      have held := inv.held drain
      rw [hand] at held
      obtain ⟨id,e,rfl,known,why⟩ := held
      have less : Inv P { s with files := Function.update s.files (spool_name id) none } := by
        refine ⟨?_,?_,inv.held⟩
        · intro other data there
          by_cases mine : other = spool_name id
          · exact ⟨id,e,mine,known⟩
          · refine inv.owned other data ?_
            rw [← there]
            exact (Function.update_of_ne mine _ _).symm
        · intro id' e' data known' shown
          by_cases mine : id' = id
          · subst mine
            rw [known] at known'
            cases known'
            rcases why with failed | taken
            · rw [failed] at shown
              cases shown
            · exact .inl taken
          · refine (inv.kept id' e' data known' shown).imp_right ?_
            intro there
            rw [← there]
            apply Function.update_of_ne
            intro equal
            exact mine (spool_name_inj equal)
      exact less.drained trivial
  next => exact inv

/-! ### Runs -/

theorem run_append (s : EventSpool) (events later : List SpoolEvent) :
    s.run P allow_external_webhooks (events ++ later) =
      (s.run P allow_external_webhooks events).run P allow_external_webhooks later := List.foldl_append

theorem Inv.restart (inv : s.Inv P) : (s.step P allow_external_webhooks .restart).Inv P := by
  rw [step]
  refine ⟨?_,?_,?_⟩
  · intro name data there
    obtain ⟨id,e,named,known⟩ := inv.owned name data there
    exact ⟨id,_,named,congrArg (Option.map _) known⟩
  · intro id e data known shown
    obtain ⟨e',known',stopped⟩ := Option.map_eq_some_iff.mp known
    cases phase : e'.phase with
    | ended ok =>
      rw [phase] at stopped
      cases stopped
      exact inv.kept id e' data known' shown
    | _ =>
      rw [phase] at stopped
      cases stopped
      cases shown
  · intro drain
    exact trivial

theorem Inv.step (faithful : P.Faithful) (inv : s.Inv P) (event : SpoolEvent) (clear : s.Clear P event) :
    (s.step P allow_external_webhooks event).Inv P := by
  cases event with
  | configure bucket head_bucket body stored =>
    rw [EventSpool.step]
    split
    · exact ⟨inv.owned,inv.kept,inv.held⟩
    · exact inv
  | unconfigure bucket => exact ⟨inv.owned,inv.kept,inv.held⟩
  | object_created bucket key size etag id time => exact inv.emit bucket _
  | object_removed bucket key id time => exact inv.emit bucket _
  | create id ok => exact inv.create id ok
  | write id bytes => exact inv.write id bytes
  | finish id ok => exact inv.finish id ok
  | visit drain name => exact inv.visit faithful drain name clear
  | respond drain success => exact inv.respond drain success
  | remove drain ok => exact inv.remove drain ok
  | restart => exact inv.restart

theorem Inv.run (faithful : P.Faithful) {events : List SpoolEvent} (inv : s.Inv P)
    (careful : s.Throughout P allow_external_webhooks (Clear P) events) : (s.run P allow_external_webhooks events).Inv P := by
  induction events generalizing s with
  | nil => exact inv
  | cons event rest ih =>
    obtain ⟨clear,later⟩ := careful
    exact ih (inv.step faithful event clear) later

theorem Throughout.of_append {Q : EventSpool → SpoolEvent → Prop} {events later : List SpoolEvent}
    (through : s.Throughout P allow_external_webhooks Q (events ++ later)) :
    s.Throughout P allow_external_webhooks Q events := by
  induction events generalizing s with
  | nil => exact trivial
  | cons event rest ih => exact ⟨through.1,ih through.2⟩

theorem Throughout.append {Q : EventSpool → SpoolEvent → Prop} {events later : List SpoolEvent}
    (first : s.Throughout P allow_external_webhooks Q events)
    (last : (s.run P allow_external_webhooks events).Throughout P allow_external_webhooks Q later) :
    s.Throughout P allow_external_webhooks Q (events ++ later) := by
  induction events generalizing s with
  | nil => exact last
  | cons event rest ih => exact ⟨first.1,ih first.2 last⟩

/-- Nothing is asked of a run without visits. -/
theorem clear_of_unvisited {events : List SpoolEvent} (unvisited : ∀ drain name, .visit drain name ∉ events) :
    s.Throughout P allow_external_webhooks (Clear P) events := by
  induction events generalizing s with
  | nil => exact trivial
  | cons event rest ih =>
    refine ⟨?_,ih fun drain name later => unvisited drain name (List.mem_cons_of_mem _ later)⟩
    cases event with
    | visit drain name => exact absurd List.mem_cons_self (unvisited drain name)
    | _ => exact trivial

/-- In a careful run no record is lost, whatever the receivers answer. -/
theorem careful_run_lossless (faithful : P.Faithful) {events reached : List SpoolEvent}
    (careful : (start).Throughout P allow_external_webhooks (Clear P) events) (part : reached <+: events) :
    ((start).run P allow_external_webhooks reached).Lossless P := by
  obtain ⟨later,rfl⟩ := part
  exact (start_inv.run faithful careful.of_append).lossless

/-! ### What has been accepted -/

/-- A configuration that is accepted names a receiver that is. -/
theorem put_bucket_notification_accepts {bucket : String} {head_bucket : Except StorageError Bool} {body : Bytes}
    {stored : Except StorageError Unit} {config : BucketNotificationConfig}
    (done : put_bucket_notification P allow_external_webhooks bucket head_bucket body stored = .ok config) :
    validate_webhook_url P config.webhook_url allow_external_webhooks = .ok () := by
  have steps : ∀ {α β : Type} {m : Except S3Error α} {f : α → Except S3Error β} {b : β}, (m >>= f) = .ok b →
      ∃ a, m = .ok a ∧ f a = .ok b := by
    intro α β m f b whole
    cases m with
    | error e => cases whole
    | ok a => exact ⟨a,rfl,whole⟩
  obtain ⟨_,_,done⟩ := steps done
  obtain ⟨body_bytes,_,done⟩ := steps done
  obtain ⟨webhook_url,_,done⟩ := steps done
  obtain ⟨_,valid,done⟩ := steps done
  obtain ⟨events,_,done⟩ := steps done
  obtain ⟨_,_,done⟩ := steps done
  cases done
  cases judged : validate_webhook_url P webhook_url allow_external_webhooks with
  | error e =>
    rw [judged] at valid
    cases valid
  | ok _ => rfl

theorem emit_event_receiver {config : BucketNotificationConfig} {event bucket key : String} {size : Option Nat}
    {etag : Option String} {id time : String} {record : EventRecord}
    (emitted : emit_event config event bucket key size etag id time = some record) :
    record.webhook_url = config.webhook_url := by
  unfold emit_event at emitted
  split at emitted
  · cases emitted
    rfl
  · cases emitted

/-- An enqueue whose receiver is accepted begins or goes on. -/
theorem Accepted.moved (accepted : s.Accepted P allow_external_webhooks) {id : String} {record : EventRecord}
    (valid : validate_webhook_url P record.webhook_url allow_external_webhooks = .ok ()) {s' : EventSpool} {phase : Writing}
    (notifications : s'.notifications = s.notifications)
    (enqueues : s'.enqueues = Function.update s.enqueues id (some ⟨record,phase⟩)) : s'.Accepted P allow_external_webhooks := by
  constructor
  · rw [notifications]
    exact accepted.configured
  · intro other e' known
    rw [enqueues] at known
    by_cases mine : other = id
    · subst mine
      rw [Function.update_self] at known
      cases known
      exact valid
    · rw [Function.update_of_ne mine] at known
      exact accepted.recorded other e' known

theorem Accepted.emit (accepted : s.Accepted P allow_external_webhooks) (bucket : String)
    {record : BucketNotificationConfig → Option EventRecord}
    (receiver : ∀ config r, record config = some r → r.webhook_url = config.webhook_url) :
    (s.emit bucket record).Accepted P allow_external_webhooks := by
  unfold EventSpool.emit
  split
  next r emitted =>
    obtain ⟨config,configured,made⟩ := Option.bind_eq_some_iff.mp emitted
    have valid := accepted.configured bucket config configured
    rw [← receiver config r made] at valid
    unfold EventSpool.enqueue
    split
    · exact accepted
    · exact accepted.moved valid rfl rfl
  next => exact accepted

theorem Accepted.step (accepted : s.Accepted P allow_external_webhooks) (event : SpoolEvent) :
    (s.step P allow_external_webhooks event).Accepted P allow_external_webhooks := by
  cases event with
  | configure bucket head_bucket body stored =>
    rw [EventSpool.step]
    split
    next config done =>
      refine ⟨?_,accepted.recorded⟩
      intro other config' known
      change Function.update s.notifications bucket (some config) other = some config' at known
      by_cases mine : other = bucket
      · subst mine
        rw [Function.update_self] at known
        cases known
        exact put_bucket_notification_accepts done
      · rw [Function.update_of_ne mine] at known
        exact accepted.configured other config' known
    next => exact accepted
  | unconfigure bucket =>
    refine ⟨?_,accepted.recorded⟩
    intro other config known
    change Function.update s.notifications bucket none other = some config at known
    by_cases mine : other = bucket
    · subst mine
      rw [Function.update_self] at known
      cases known
    · rw [Function.update_of_ne mine] at known
      exact accepted.configured other config known
  | object_created bucket key size etag id time => exact accepted.emit bucket fun _ _ => emit_event_receiver
  | object_removed bucket key id time => exact accepted.emit bucket fun _ _ => emit_event_receiver
  | create id ok =>
    rw [EventSpool.step]
    split
    next record known =>
      have valid := accepted.recorded id _ known
      cases ok with
      | true => exact accepted.moved valid rfl rfl
      | false => exact accepted.moved valid rfl rfl
    next => exact accepted
  | write id bytes =>
    rw [EventSpool.step]
    split
    next record written known => exact accepted.moved (accepted.recorded id _ known) rfl rfl
    next => exact accepted
  | finish id ok =>
    rw [EventSpool.step]
    split
    next record written known =>
      split
      · exact accepted
      · exact accepted.moved (accepted.recorded id _ known) rfl rfl
    next => exact accepted
  | visit drain name =>
    rw [EventSpool.step]
    repeat' split
    all_goals exact ⟨accepted.configured,accepted.recorded⟩
  | respond drain success =>
    rw [EventSpool.step]
    repeat' split
    all_goals exact ⟨accepted.configured,accepted.recorded⟩
  | remove drain ok =>
    rw [EventSpool.step]
    repeat' split
    all_goals exact ⟨accepted.configured,accepted.recorded⟩
  | restart =>
    refine ⟨accepted.configured,?_⟩
    intro id e known
    obtain ⟨e',known',stopped⟩ := Option.map_eq_some_iff.mp known
    have valid := accepted.recorded id e' known'
    cases phase : e'.phase with
    | ended ok =>
      rw [phase] at stopped
      cases stopped
      exact valid
    | _ =>
      rw [phase] at stopped
      cases stopped
      exact valid

theorem Accepted.run (accepted : s.Accepted P allow_external_webhooks) (events : List SpoolEvent) :
    (s.run P allow_external_webhooks events).Accepted P allow_external_webhooks := by
  induction events generalizing s with
  | nil => exact accepted
  | cons event rest ih => exact ih (accepted.step event)

theorem start_accepted : (start).Accepted P allow_external_webhooks := by
  constructor
  · intro bucket config none
    cases none
  · intro id e none
    cases none

/-- Where external receivers are not allowed, it is enough that no drain reads a file that is not written to its end. -/
theorem whole_run_lossless (faithful : P.Faithful) {events reached : List SpoolEvent}
    (whole : (start).Throughout P false (Whole P) events) (part : reached <+: events) :
    ((start).run P false reached).Lossless P := by
  have clear : ∀ (s : EventSpool), s.Accepted P false → ∀ events, s.Throughout P false (Whole P) events →
      s.Throughout P false (Clear P) events := by
    intro s accepted events
    induction events generalizing s with
    | nil => exact id
    | cons event rest ih =>
      intro whole
      refine ⟨?_,ih _ (accepted.step event) whole.2⟩
      cases event with
      | visit drain name =>
        intro id record phase text known named alive read
        exact ⟨whole.1 id record phase text known named alive read,accepted.recorded id _ known⟩
      | _ => exact trivial
  obtain ⟨later,rfl⟩ := part
  exact (start_inv.run faithful (clear _ start_accepted _ whole).of_append).lossless

/-! ### What is lost -/

/-- An enqueue that writes everything at once succeeds, whether its file is still there or not. -/
theorem written_whole {id : String} {record : EventRecord} (filling : s.enqueues id = some ⟨record,.filling 0⟩) :
    let s' := s.run P allow_external_webhooks [.write id (text P record).length,.finish id true]
    s'.files = Function.update s.files (spool_name id) ((s.files (spool_name id)).map fun _ => text P record) ∧
      s'.enqueues id = some ⟨record,.ended true⟩ ∧ s'.drains = s.drains ∧ s'.delivered = s.delivered := by
  have filled : (s.step P allow_external_webhooks (.write id (text P record).length)).enqueues id =
      some ⟨record,.filling (text P record).length⟩ := by
    simp only [EventSpool.step,filling,Nat.zero_add]
    exact Function.update_self _ _ _
  have file : (s.step P allow_external_webhooks (.write id (text P record).length)).files =
      Function.update s.files (spool_name id) ((s.files (spool_name id)).map fun _ => text P record) := by
    simp only [EventSpool.step,filling,Nat.zero_add,List.take_length]
  have rest : (s.step P allow_external_webhooks (.write id (text P record).length)).drains = s.drains ∧
      (s.step P allow_external_webhooks (.write id (text P record).length)).delivered = s.delivered := by
    simp only [EventSpool.step,filling]
    exact ⟨rfl,rfl⟩
  change _ = _ ∧ _
  simp only [EventSpool.run,List.foldl_cons,List.foldl_nil]
  generalize s.step P allow_external_webhooks (.write id (text P record).length) = t at filled file rest
  simp only [EventSpool.step,filled,true_and,Nat.lt_irrefl,if_false]
  exact ⟨file,Function.update_self _ _ _,rest⟩

/-- A drain that cannot use what it reads removes the file, whoever is writing it. -/
theorem removed_unread {drain : Nat} {name text : String} (idle : s.drains drain = .next_entry)
    (json : extension name = some "json") (there : s.files name = some (utf8 text))
    (unusable : judge P name text = .removing name) :
    let s' := s.run P allow_external_webhooks [.visit drain name,.remove drain true]
    s'.files = Function.update s.files name none ∧ s'.enqueues = s.enqueues ∧ s'.delivered = s.delivered := by
  have visited : s.step P allow_external_webhooks (.visit drain name) = s.drained drain (.removing name) := by
    rw [EventSpool.step]
    simp only [idle,json,ne_eq,not_true_eq_false,if_false,there,Option.bind_some,read_to_string_utf8,unusable]
  have hand : (s.drained drain (.removing name)).drains drain = .removing name := Function.update_self _ _ _
  change _ = _ ∧ _
  simp only [EventSpool.run,List.foldl_cons,List.foldl_nil,visited]
  simp only [EventSpool.step,hand,if_true]
  exact ⟨rfl,rfl,rfl⟩

end EventSpool

/-! ### A server with one bucket -/

namespace Sample

/-- What is known of the created object `a`. -/
def notice (webhook_url : String) : EventRecord where
  id := "5c0b8d3e"
  event := "s3:ObjectCreated:Put"
  bucket := "logs"
  key := "a"
  time := "2026-01-01T00:00:00+00:00"
  size := some 3
  etag := some "900150983cd24fb0d6963f7d28e17f72"
  webhook_url := webhook_url

def event_text (webhook_url : String) : String :=
  "\x7b" ++ ("\n  \"id\": \"5c0b8d3e\",\n  \"event\": \"s3:ObjectCreated:Put\",\n  \"bucket\": \"logs\",\n  " ++
    "\"key\": \"a\",\n  \"time\": \"2026-01-01T00:00:00+00:00\",\n  \"size\": 3,\n  " ++
    "\"etag\": \"900150983cd24fb0d6963f7d28e17f72\",\n  \"webhook_url\": \"" ++ webhook_url ++ "\"\n\x7d")

def internal_url : String := "http://localhost/hook"
def external_url : String := "https://example.com/hook"

def codes (s : String) : List Nat := s.toList.map Char.toNat
def uncodes (l : List Nat) : String := String.ofList (l.map Char.ofNat)

example : uncodes (codes "logs") = "logs" := by decide +kernel

theorem uncodes_codes (s : String) : uncodes (codes s) = s := by
  rw [uncodes,codes,List.map_map]
  have each : Char.ofNat ∘ Char.toNat = id := funext Char.ofNat_toNat
  rw [each,List.map_id,String.ofList_toList]

/-- The fields of a record in numbers. -/
abbrev Fields := List (List Nat) × Option Nat × Option (List Nat)

def record_number (r : EventRecord) : Nat :=
  Encodable.encode (([r.id,r.event,r.bucket,r.key,r.time,r.webhook_url].map codes,r.size,r.etag.map codes) : Fields)

def numbered_record (n : Nat) : Option EventRecord := (Encodable.decode n : Option Fields).map fun c =>
  { id := uncodes (c.1.getD 0 []), event := uncodes (c.1.getD 1 []), bucket := uncodes (c.1.getD 2 []),
    key := uncodes (c.1.getD 3 []), time := uncodes (c.1.getD 4 []), size := c.2.1, etag := c.2.2.map uncodes,
    webhook_url := uncodes (c.1.getD 5 []) }

theorem numbered_record_number (r : EventRecord) : numbered_record (record_number r) = some r := by
  rw [numbered_record,record_number,Encodable.encodek]
  cases r with
  | mk id event bucket key time size etag webhook_url => cases etag <;> simp [uncodes_codes]

/-- The hosts of the two receivers, and the texts of the two records; any other record is written as its number. -/
def receivers : EventPrimitives EventRecord where
  host_str url := if url = internal_url then some "localhost" else if url = external_url then some "example.com" else none
  to_string_pretty record :=
    if record = notice internal_url then event_text internal_url
    else if record = notice external_url then event_text external_url
    else String.ofList (List.replicate (record_number record + 1) 'x')
  from_str text :=
    if text = event_text internal_url then some (notice internal_url)
    else if text = event_text external_url then some (notice external_url)
    else if text = "" then none
    else numbered_record (text.length - 1)

theorem event_text_head (webhook_url : String) : (event_text webhook_url).toList.head? = some '\x7b' := by
  rw [event_text,String.toList_append]
  rfl

theorem receivers_faithful : receivers.Faithful := by
  intro record
  by_cases internal : record = notice internal_url
  · simp only [receivers,internal,if_true]
  · by_cases external : record = notice external_url
    · have apart : event_text external_url ≠ event_text internal_url := by decide +kernel
      have other : notice external_url ≠ notice internal_url := by decide
      simp only [receivers,external,other,apart,if_true,if_false]
    · have unlike : ∀ url, String.ofList (List.replicate (record_number record + 1) 'x') ≠ event_text url := by
        intro url same
        have head := event_text_head url
        rw [← same,String.toList_ofList,List.replicate_succ,List.head?_cons] at head
        exact absurd head (by decide)
      have filled : String.ofList (List.replicate (record_number record + 1) 'x') ≠ "" := by
        intro same
        have lists := congrArg String.toList same
        rw [String.toList_ofList,List.replicate_succ] at lists
        exact absurd lists (by simp)
      simp only [receivers,internal,external,unlike,filled,if_false,String.length_ofList,List.length_replicate,
        Nat.add_sub_cancel]
      exact numbered_record_number record

/-- The body that asks for notices of created objects. -/
def notification (webhook_url : String) : Bytes :=
  utf8 ("<Endpoint>" ++ webhook_url ++ "</Endpoint><Event>s3:ObjectCreated:Put</Event>")

/-- A receiver is configured, and the file for a notice to it is opened. -/
def announced (webhook_url : String) : List SpoolEvent :=
  [.configure "logs" (.ok true) (notification webhook_url) (.ok ()),
    .object_created "logs" "a" 3 "900150983cd24fb0d6963f7d28e17f72" "5c0b8d3e" "2026-01-01T00:00:00+00:00",
    .create "5c0b8d3e" true]

/-- The notice is written to its end. -/
def written (webhook_url : String) : List SpoolEvent :=
  [.write "5c0b8d3e" (EventSpool.text receivers (notice webhook_url)).length,.finish "5c0b8d3e" true]

/-- The drain takes the file of the notice, and removes it. -/
def removed : List SpoolEvent := [.visit 0 "5c0b8d3e.json",.remove 0 true]

/-- The state in which the file for the notice is open. -/
def opened (allow : Bool) (webhook_url : String) : EventSpool :=
  EventSpool.start.run receivers allow (announced webhook_url)

theorem opened_external : (opened true external_url).enqueues "5c0b8d3e" = some ⟨notice external_url,.filling 0⟩ ∧
    (opened true external_url).files (spool_name "5c0b8d3e") = some [] ∧
    (opened true external_url).drains 0 = .next_entry ∧ (opened true external_url).delivered = [] := by decide +kernel

theorem opened_internal : (opened false internal_url).enqueues "5c0b8d3e" = some ⟨notice internal_url,.filling 0⟩ ∧
    (opened false internal_url).files (spool_name "5c0b8d3e") = some [] ∧
    (opened false internal_url).drains 0 = .next_entry ∧ (opened false internal_url).delivered = [] := by decide +kernel

theorem internal_judged : validate_webhook_url receivers internal_url false = .ok () := by decide +kernel

theorem external_judged : validate_webhook_url receivers external_url false ≠ .ok () := by decide +kernel

end Sample

namespace EventSpool
open Sample

section
variable {s : EventSpool} { allow : Bool} {webhook_url : String}

theorem written_notice (filling : s.enqueues "5c0b8d3e" = some ⟨notice webhook_url,.filling 0⟩) :
    (s.run receivers allow (written webhook_url)).files =
        Function.update s.files (spool_name "5c0b8d3e") ((s.files (spool_name "5c0b8d3e")).map fun _ =>
          text receivers (notice webhook_url)) ∧
      (s.run receivers allow (written webhook_url)).enqueues "5c0b8d3e" = some ⟨notice webhook_url,.ended true⟩ ∧
      (s.run receivers allow (written webhook_url)).drains = s.drains ∧
      (s.run receivers allow (written webhook_url)).delivered = s.delivered :=
  written_whole filling

/-- A visit to a notice that has been written, to an internal receiver. -/
theorem written_clear (done : s.enqueues "5c0b8d3e" = some ⟨notice internal_url,.ended true⟩)
    (there : s.files (spool_name "5c0b8d3e") = some (text receivers (notice internal_url))) :
    s.Clear receivers (.visit 0 (spool_name "5c0b8d3e")) := by
  intro id record phase content known named _ read
  have mine : "5c0b8d3e" = id := spool_name_inj named
  subst mine
  have same := known.symm.trans done
  cases same
  rw [there,Option.bind_some,text,read_to_string_utf8] at read
  cases read
  exact ⟨rfl,internal_judged⟩

/-- A receiver that turns the notice down is asked once. -/
theorem written_refused (filling : s.enqueues "5c0b8d3e" = some ⟨notice internal_url,.filling 0⟩)
    (there : s.files (spool_name "5c0b8d3e") = some []) :
    (s.run receivers allow (written internal_url)).Throughout receivers allow (Clear receivers)
      [.visit 0 (spool_name "5c0b8d3e"),.respond 0 false] := by
  obtain ⟨files,done,_,_⟩ := @written_notice _ allow _ filling
  refine ⟨written_clear done ?_,trivial,trivial⟩
  rw [files,Function.update_self,there]
  rfl

end

/-- A notice that its receiver turns down stays in the spool. -/
theorem refused_notice_kept : ((start).run receivers false
    ((announced internal_url ++ written internal_url) ++ [.visit 0 (spool_name "5c0b8d3e"),.respond 0 false])).Lossless
      receivers := by
  have quiet : (start).Throughout receivers false (Clear receivers) (announced internal_url ++ written internal_url) := by
    refine clear_of_unvisited ?_
    intro drain name member
    simp [announced,written] at member
  refine careful_run_lossless receivers_faithful (quiet.append ?_) (List.prefix_refl _)
  have reached : (start).run receivers false (announced internal_url) = opened false internal_url := rfl
  rw [run_append,reached]
  exact written_refused opened_internal.1 opened_internal.2.1

section
variable {s : EventSpool} { allow : Bool}

/-- A notice that has been written is lost when the drain cannot use it. -/
theorem written_lost {webhook_url : String} (filling : s.enqueues "5c0b8d3e" = some ⟨notice webhook_url,.filling 0⟩)
    (there : s.files (spool_name "5c0b8d3e") = some []) (idle : s.drains 0 = .next_entry) (undelivered : s.delivered = [])
    (unusable : judge receivers "5c0b8d3e.json" (receivers.to_string_pretty (notice webhook_url)) =
      .removing "5c0b8d3e.json") :
    ¬ ((s.run receivers allow (written webhook_url)).run receivers allow removed).Lossless receivers := by
  obtain ⟨files,done,drains,delivered⟩ := @written_notice _ allow _ filling
  rw [← drains] at idle
  have text : (s.run receivers allow (written webhook_url)).files "5c0b8d3e.json" =
      some (utf8 (receivers.to_string_pretty (notice webhook_url))) := by
    rw [files]
    change Function.update s.files (spool_name "5c0b8d3e") _ (spool_name "5c0b8d3e") = _
    rw [Function.update_self,there]
    rfl
  obtain ⟨files',done',delivered'⟩ := @removed_unread _ allow _ _ _ _ idle (by decide) text unusable
  intro lossless
  rcases lossless "5c0b8d3e" (notice webhook_url) ((congrFun done' _).trans done) with taken | kept
  · have none : ((s.run receivers allow (written webhook_url)).run receivers allow removed).delivered = [] :=
      delivered'.trans (delivered.trans undelivered)
    rw [none] at taken
    cases taken
  · have gone := (congrFun files' (spool_name "5c0b8d3e")).trans (Function.update_self _ _ _)
    cases kept.symm.trans gone

/-- A notice is lost when the drain comes before it is written. -/
theorem torn_lost {webhook_url : String} (filling : s.enqueues "5c0b8d3e" = some ⟨notice webhook_url,.filling 0⟩)
    (there : s.files (spool_name "5c0b8d3e") = some []) (idle : s.drains 0 = .next_entry) (undelivered : s.delivered = []) :
    ¬ ((s.run receivers allow removed).run receivers allow (written webhook_url)).Lossless receivers := by
  have unusable : judge receivers "5c0b8d3e.json" "" = .removing "5c0b8d3e.json" := by
    have unparsed : receivers.from_str "" = none := by decide +kernel
    rw [judge,unparsed]
  obtain ⟨files,enqueues,delivered⟩ := @removed_unread receivers allow _ _ _ _ idle (by decide)
    (show s.files "5c0b8d3e.json" = some (utf8 "") from there) unusable
  have filling' : (s.run receivers allow removed).enqueues "5c0b8d3e" = some ⟨notice webhook_url,.filling 0⟩ :=
    (congrFun enqueues _).trans filling
  have gone : (s.run receivers allow removed).files (spool_name "5c0b8d3e") = none :=
    (congrFun files (spool_name "5c0b8d3e")).trans (Function.update_self _ _ _)
  obtain ⟨files',done,_,delivered'⟩ := @written_notice _ allow _ filling'
  have none : ((s.run receivers allow removed).run receivers allow (written webhook_url)).delivered = [] :=
    delivered'.trans (Eq.trans delivered undelivered)
  intro lossless
  rcases lossless "5c0b8d3e" (notice webhook_url) done with taken | kept
  · rw [none] at taken
    cases taken
  · rw [files',Function.update_self,gone] at kept
    cases kept

end

/-- With external receivers allowed, a notice to one is dropped by the drain; and a notice to an internal one is when the
    drain comes before it is written. -/
theorem notices_lost :
    ¬ ((start).run receivers true (announced external_url ++ written external_url ++ removed)).Lossless receivers ∧
    ¬ ((start).run receivers false (announced internal_url ++ removed ++ written internal_url)).Lossless receivers := by
  constructor
  · have reached : (start).run receivers true (announced external_url) = opened true external_url := rfl
    rw [run_append,run_append,reached]
    obtain ⟨filling,there,idle,undelivered⟩ := opened_external
    refine written_lost filling there idle undelivered ?_
    rw [judge,receivers_faithful]
    dsimp only
    cases judged : validate_webhook_url receivers external_url false with
    | ok _ => exact absurd judged external_judged
    | error e =>
      have same : (notice external_url).webhook_url = external_url := rfl
      rw [same,judged]
  · have reached : (start).run receivers false (announced internal_url) = opened false internal_url := rfl
    rw [run_append,run_append,reached]
    obtain ⟨filling,there,idle,undelivered⟩ := opened_internal
    exact torn_lost filling there idle undelivered

end EventSpool
end Maxio
