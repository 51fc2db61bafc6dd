import PacketFence.Queue.Accounting

/-!
# Delivery of tasks

A task is executed at most once and not before it is due, and one whose hash was
gone when it was taken is counted as expired and not executed. Both follow from
where an id can come from: the script takes ids from a sorted set only by a time
that has passed, and a consumer goes on to execute only what it has found.
-/

namespace PacketFence.Queue

open Foundations Lexing List Function Nat Shelves Place Int

def latePlaces : Finset Place :=
  insert .queued takenPlaces

def foundPlaces : Finset Place :=
  {.held .loaded, .held .deleted, .executed, .undecoded}

theorem latePlaces_subset : latePlaces ⊆ submittedPlaces := by decide

theorem takenPlaces_subset : takenPlaces ⊆ submittedPlaces := by decide

structure Timely (state : State) : Prop where
  moves : ∀ move ∈ state.movers.contents, move.time ≤ state.server.timeMilli
  scores : ∀ row ∈ state.server.delayed.rows, ∀ submission ∈ state.submitted,
    submission.id = row.member → submission.due = row.score
  due : ∀ submission ∈ state.submitted, ∀ place ∈ latePlaces,
    0 < state.census place (· == submission.id) → submission.due ≤ state.server.timeMilli
  executed : ∀ execution ∈ state.executed, ∀ submission ∈ state.submitted,
    submission.id = execution.id → submission.due ≤ execution.time

variable {first second server : Server} {ids : List Text} {place : Place} {id : Text}
  {submission : Submission} {source : Option Place} {consumer : Consumer} {work : Work}
  {state next : State}

theorem timeMilli_le (later : first.now ≤ second.now) : first.timeMilli ≤ second.timeMilli := by
  rw [Server.timeMilli, Server.timeMilli]
  omega

theorem Timely.of_later (timely : Timely state) (submitted : next.submitted = state.submitted)
    (time : state.server.timeMilli ≤ next.server.timeMilli)
    (moves : ∀ move ∈ next.movers.contents, move ∈ state.movers.contents ∨
      move.time ≤ next.server.timeMilli)
    (rows : ∀ row ∈ next.server.delayed.rows, row ∈ state.server.delayed.rows)
    (due : ∀ submission ∈ state.submitted, ∀ place ∈ latePlaces,
      0 < next.census place (· == submission.id) →
        (∃ place ∈ latePlaces, 0 < state.census place (· == submission.id)) ∨
          submission.due ≤ next.server.timeMilli)
    (executed : ∀ execution ∈ next.executed, execution ∈ state.executed ∨
      ∀ submission ∈ state.submitted, submission.id = execution.id →
        submission.due ≤ execution.time) :
    Timely next where
  moves := by
    intro move member
    rcases moves move member with old | new
    · exact le_trans (timely.moves move old) time
    · exact new
  scores := by
    rw [submitted]
    exact fun row member => timely.scores row (rows row member)
  due := by
    rw [submitted]
    intro submission member place late present
    rcases due submission member place late present with ⟨place, late, before⟩ | now
    · exact le_trans (timely.due submission member place late before) time
    · exact now
  executed := by
    rw [submitted]
    intro execution member
    rcases executed execution member with old | new
    · exact timely.executed execution old
    · exact new

theorem late_of_moved {before after : Place} {kind : Text → Bool}
    (moved : Moved state next (some before) (some after) ids) (late : before ∈ latePlaces)
    (other : before ≠ after) (isLate : place ∈ latePlaces)
    (present : 0 < next.census place kind) : ∃ place ∈ latePlaces, 0 < state.census place kind := by
  rcases moved.transfer.pos present with old | ⟨_, come⟩
  · exact ⟨place, isLate, old⟩
  · have different : some after ≠ some before := fun same =>
      other (Option.some.inj same).symm
    exact ⟨before, late, moved.transfer.source_pos different come⟩

theorem Timely.of_held (timely : Timely state) {before after : Place}
    (moved : Moved state next (some before) (some after) ids) (late : before ∈ latePlaces)
    (other : before ≠ after) (submitted : next.submitted = state.submitted)
    (time : state.server.timeMilli ≤ next.server.timeMilli) (movers : next.movers = state.movers)
    (rows : next.server.delayed.rows = state.server.delayed.rows)
    (executed : ∀ execution ∈ next.executed, execution ∈ state.executed ∨
      ∀ submission ∈ state.submitted, submission.id = execution.id →
        submission.due ≤ execution.time) : Timely next :=
  timely.of_later submitted time (fun _ member => .inl (movers ▸ member))
    (fun _ member => rows ▸ member)
    (fun _ _ _ isLate present => .inl (late_of_moved moved late other isLate present)) executed

theorem Conserved.absent_of_fresh (conserved : Conserved state)
    (fresh : id ∉ state.usedIds) (place : Place) : state.census place (· == id) = 0 := by
  have part := state.census.le_total (mem_everywhere place) (· == id)
  rw [conserved.absent_of_notMem fresh] at part
  omega

theorem Conserved.ne_of_absent (conserved : Conserved state)
    (absent : ∀ place ∈ submittedPlaces, state.census place (· == id) = 0) :
    ∀ submission ∈ state.submitted, submission.id ≠ id := by
  have none : (state.submitted.countP fun submission => submission.id == id) = 0 := by
    rw [conserved.submitted (· == id)]
    exact Finset.sum_eq_zero absent
  intro submission member same
  apply countP_eq_zero.mp none submission member
  exact beq_iff_eq.mpr same

theorem Timely.of_submitted (timely : Timely state) (conserved : Conserved state) {target : Place}
    (moved : Moved state next source (some target) [submission.id])
    (absent : ∀ place ∈ submittedPlaces, state.census place (· == submission.id) = 0)
    (submitted : next.submitted = submission :: state.submitted)
    (time : next.server.timeMilli = state.server.timeMilli)
    (movers : next.movers = state.movers) (executed : next.executed = state.executed)
    (rows : ∀ row ∈ next.server.delayed.rows, row ∈ state.server.delayed.rows ∨
      row.member = submission.id ∧ row.score = submission.due)
    (due : target ∈ latePlaces → submission.due ≤ state.server.timeMilli) :
    Timely next where
  moves := by
    rw [movers, time]
    exact timely.moves
  scores := by
    have unknown := conserved.ne_of_absent absent
    rw [submitted]
    intro row member other known same
    rcases rows row member with old | ⟨new, score⟩
    · rcases mem_cons.mp known with rfl | known
      · exact absurd same.symm (member_ne_of_census (absent .delayed (by decide)) row old)
      · exact timely.scores row old other known same
    · rcases mem_cons.mp known with rfl | known
      · exact score.symm
      · exact absurd (same.trans new) (unknown other known)
  due := by
    have unknown := conserved.ne_of_absent absent
    rw [submitted, time]
    intro other known place late present
    rcases moved.transfer.pos present with old | ⟨here, come⟩
    · rcases mem_cons.mp known with rfl | known
      · exact absurd (absent place (latePlaces_subset late)) (ne_of_gt old)
      · exact timely.due other known place late old
    · rcases mem_cons.mp known with rfl | known
      · exact due (Option.some.inj here ▸ late)
      · obtain ⟨id, isNew, same⟩ := countP_pos_iff.mp come
        rw [mem_singleton.mp isNew] at same
        exact absurd (beq_iff_eq.mp same).symm (unknown other known)
  executed := by
    rw [submitted, executed]
    intro execution member other known same
    rcases mem_cons.mp known with rfl | known
    · have present : 0 < state.census .executed (· == execution.id) :=
        countP_pos_iff.mpr ⟨execution, member, beq_self_eq_true _⟩
      rw [← same, absent .executed (by decide)] at present
      exact absurd present (lt_irrefl 0)
    · exact timely.executed execution member other known same

theorem rows_delayJobsMove {delayZset jobQueue : Text} {timestamp batch : Int} {row : Delayed}
    (member : row ∈ (server.delayJobsMove delayZset jobQueue timestamp batch).delayed.rows) :
    row ∈ server.delayed.rows := by
  rw [Server.delayJobsMove] at member
  split at member
  · exact mem_of_mem_filter member
  · exact member

theorem Timely.due_of_moved (timely : Timely state) {move : Move}
    (known : move ∈ state.movers.contents)
    (member : submission ∈ state.submitted)
    (come : 0 < ((state.server.due move).map (·.member)).countP (· == submission.id)) :
    submission.due ≤ state.server.timeMilli := by
  obtain ⟨id, moved, same⟩ := countP_pos_iff.mp come
  obtain ⟨row, isDue, rfl⟩ := mem_map.mp moved
  obtain ⟨inside, _, reached⟩ := mem_due isDue
  calc
    submission.due = row.score :=
      timely.scores row inside submission member (beq_iff_eq.mp same).symm
    _ ≤ move.time := reached
    _ ≤ state.server.timeMilli := timely.moves move known

theorem Timely.due_of_held (timely : Timely state)
    (held : state.consumers.get consumer = [work]) (stage : Stage) (isStage : work.stage = stage)
    (late : .held stage ∈ latePlaces)
    (member : submission ∈ state.submitted) (same : submission.id = work.id) :
    submission.due ≤ state.server.timeMilli := by
  apply timely.due submission member (.held stage) late
  have working := mem_contents_of_get_eq_singleton held
  exact countP_pos_iff.mpr ⟨work, working, by simp [isStage, same]⟩

theorem Timely.step (timely : Timely state) (conserved : Conserved state)
    (effect : Effect state next) : Timely next := by
  cases effect with
  | tick elapsed =>
    exact timely.of_later rfl (timeMilli_le (Nat.le_add_right ..)) (fun _ => .inl)
      (fun _ member => member) (fun _ _ place late present => .inl ⟨place, late, present⟩)
      (fun _ => .inl)
  | expire id gone =>
    exact timely.of_later rfl (le_refl _) (fun _ => .inl) (fun _ member => member)
      (fun _ _ place late present => .inl ⟨place, late, present⟩) (fun _ => .inl)
  | submit request submission due fresh counter =>
    exact timely.of_submitted conserved (moved_submit request counter)
      (fun place _ => conserved.absent_of_fresh fresh place) rfl rfl rfl rfl
      (fun _ => .inl) (fun _ => le_of_eq due)
  | readTime producer pending idle fresh counter =>
    refine timely.of_later rfl (le_refl _) (fun _ => .inl) (fun _ member => member) ?_
      (fun _ => .inl)
    intro submission known place late present
    rcases (moved_readTime pending idle).transfer.pos present with old | ⟨here, _⟩
    · exact .inl ⟨place, late, old⟩
    · cases here
      exact absurd late (by decide)
  | submitDelayed producer pending waiting =>
    have known : pending ∈ state.producers.contents :=
      mem_contents_of_get_eq_singleton waiting
    have absent := conserved.absent_of_pending known
    refine timely.of_submitted conserved
      (moved_submitDelayed waiting (conserved.pendingIds pending known)
        (absent .delayed (by decide)))
      absent rfl rfl rfl rfl ?_ (fun late => absurd late (by decide))
    intro row member
    rw [rows_submitDelayed (absent .delayed (by decide)), mem_append, mem_singleton] at member
    rcases member with old | rfl
    · exact .inl old
    · exact .inr ⟨rfl, rfl⟩
  | readMoveTime mover move time =>
    refine timely.of_later rfl (le_refl _) ?_ (fun _ member => member)
      (fun _ _ place late present => .inl ⟨place, late, present⟩) (fun _ => .inl)
    intro other member
    rcases mem_or_mem_of_mem_put member with new | old
    · rw [mem_singleton.mp new]
      exact .inr (le_of_eq time)
    · exact .inl old
  | move mover move waiting =>
    have known : move ∈ state.movers.contents := mem_contents_of_get_eq_singleton waiting
    have time : state.server.timeMilli ≤ _ :=
      timeMilli_le (le_of_eq (delayJobsMove_kept state.server
        (delayedPrefix ++ move.name) (queuePrefix ++ move.name) move.time move.batch).1.symm)
    refine timely.of_later rfl time ?_ (fun _ => rows_delayJobsMove) ?_ (fun _ => .inl)
    · intro other member
      rcases mem_or_mem_of_mem_put member with new | old
      · cases new
      · exact .inl old
    · intro submission member place late present
      rcases (moved_move mover move).transfer.pos present with old | ⟨_, come⟩
      · exact .inl ⟨place, late, old⟩
      · exact .inr (le_trans (timely.due_of_moved known member come) time)
  | popNothing => exact timely
  | pop consumer names id server idle popped =>
    obtain ⟨name, ids, _, rfl⟩ := brpop_eq_some popped
    exact timely.of_held (moved_pop idle popped _) (by decide) nofun rfl (le_refl _) rfl rfl
      (fun _ => .inl)
  | load consumer id hash held found =>
    exact timely.of_held (moved_transaction held (.loaded id hash) rfl nofun) (by decide)
      nofun rfl (le_refl _) rfl rfl (fun _ => .inl)
  | miss consumer id held =>
    exact timely.of_held (moved_transaction held (.missing id) rfl nofun) (by decide)
      nofun rfl (le_refl _) rfl rfl (fun _ => .inl)
  | decodeFails consumer id hash held =>
    exact timely.of_held (moved_decodeFails held) (by decide) (by decide) rfl (le_refl _)
      rfl rfl (fun _ => .inl)
  | del consumer id hash held =>
    exact timely.of_held (moved_del held) (by decide) (by decide) rfl (le_refl _)
      rfl rfl (fun _ => .inl)
  | doTask consumer id hash held =>
    refine timely.of_held (moved_doTask held) (by decide) (by decide) rfl (le_refl _)
      rfl rfl ?_
    intro execution member
    rcases mem_cons.mp member with rfl | old
    · exact .inr fun _ known same => timely.due_of_held held .deleted rfl (by decide) known same
    · exact .inl old
  | countExpired consumer id held =>
    exact timely.of_held (moved_countExpired held) (by decide) (by decide) rfl (le_refl _)
      rfl rfl (fun _ => .inl)

/-! ### Expired tasks -/

structure Withheld (state : State) : Prop where
  gone : ∀ id ∈ state.takenExpired, state.server.hgetall id = none
  taken : ∀ id ∈ state.takenExpired, 0 < state.census.total takenPlaces (· == id)
  notFound : ∀ id ∈ state.takenExpired, ∀ place ∈ foundPlaces, state.census place (· == id) = 0

theorem hgetall_eq_none_of_later (gone : first.hgetall id = none)
    (hashes : second.hashes id = first.hashes id ∨ second.hashes id = none)
    (later : first.now ≤ second.now) : second.hgetall id = none := by
  rw [Server.hgetall] at *
  rcases hashes with same | removed
  · rw [same]
    cases found : first.hashes id with
    | none => rfl
    | some hash =>
      have time := timeMilli_le later
      rw [found] at gone
      cases deadline : hash.deadline with
      | none => simp [deadline] at gone
      | some deadline =>
        simp only [Option.filter_some, deadline, Option.all_some, decide_eq_true_eq] at gone ⊢
        split at gone
        · cases gone
        next passed => exact if_neg fun early => passed (le_trans time early)
  · rw [removed]
    rfl

theorem Withheld.of_moved (withheld : Withheld state) {target : Option Place}
    (moved : Moved state next source target ids)
    (takenExpired : next.takenExpired = state.takenExpired)
    (gone : ∀ id ∈ state.takenExpired, next.server.hgetall id = none)
    (grows : ∀ amount, flow takenPlaces amount source ≤ flow takenPlaces amount target)
    (notFound : (∀ place ∈ foundPlaces, target ≠ some place) ∨
      ∀ id ∈ ids, id ∉ state.takenExpired) :
    Withheld next where
  gone := by
    rw [takenExpired]
    exact gone
  taken := by
    rw [takenExpired]
    intro id member
    have balance := moved.transfer.total takenPlaces (· == id)
    have before := withheld.taken id member
    have more := grows (ids.countP (· == id))
    omega
  notFound := by
    rw [takenExpired]
    intro id member place found
    by_contra present
    rcases moved.transfer.pos (pos_of_ne_zero present) with old | ⟨here, come⟩
    · exact ne_of_gt old (withheld.notFound id member place found)
    · obtain ⟨other, isMoved, same⟩ := countP_pos_iff.mp come
      rw [beq_iff_eq.mp same] at isMoved
      rcases notFound with elsewhere | others
      · exact elsewhere place found here
      · exact others id isMoved member

theorem Withheld.notMem_of_held (withheld : Withheld state)
    (held : state.consumers.get consumer = [work]) (stage : Stage) (isStage : work.stage = stage)
    (found : .held stage ∈ foundPlaces) : ∀ id ∈ [work.id], id ∉ state.takenExpired := by
  refine forall_mem_singleton.mpr fun member => ?_
  have working : work ∈ state.consumers.contents := mem_contents_of_get_eq_singleton held
  have present : 0 < state.census (.held stage) (· == work.id) :=
    countP_pos_iff.mpr ⟨work, working, by simp [isStage]⟩
  exact ne_of_gt present (withheld.notFound work.id member _ found)

theorem Withheld.ne_of_absent (withheld : Withheld state)
    (absent : ∀ place ∈ submittedPlaces, state.census place (· == id) = 0) :
    ∀ other ∈ state.takenExpired, other ≠ id := by
  rintro other member rfl
  have present := withheld.taken other member
  have none : state.census.total takenPlaces (· == other) = 0 :=
    Finset.sum_eq_zero fun place inside => absent place (takenPlaces_subset inside)
  omega

theorem Conserved.popped_place (conserved : Conserved next)
    (moved : Moved state next (some .queued) (some (.held .popped)) [id]) :
    0 < next.census.total takenPlaces (· == id) ∧
      ∀ place ∈ foundPlaces, next.census place (· == id) = 0 := by
  have arrived := moved.transfer (.held .popped) (· == id)
  have present : 0 < next.census (.held .popped) (· == id) := by
    simp at arrived
    omega
  have inside : held .popped ∈ takenPlaces := by decide
  refine ⟨lt_of_lt_of_le present (next.census.le_total inside _), ?_⟩
  intro place found
  apply conserved.elsewhere present
  rintro rfl
  exact absurd found (by decide)

theorem submit_hashes {request : Request} (other : id ≠ submission.id) :
    (server.submit request submission).hashes id = server.hashes id := by
  change Function.update (Function.update server.hashes submission.id _) submission.id _ id = _
  rw [update_of_ne other, update_of_ne other]

theorem submitDelayed_hashes {pending : Pending} (other : id ≠ pending.submission.id) :
    (server.submitDelayed pending).hashes id = server.hashes id := by
  change Function.update (Function.update server.hashes pending.submission.id _)
    pending.submission.id _ id = _
  rw [update_of_ne other, update_of_ne other]

theorem del_hashes (server : Server) (id other : Text) :
    (server.del id).hashes other = server.hashes other ∨ (server.del id).hashes other = none := by
  by_cases same : other = id
  · subst same
    exact .inr (update_self ..)
  · exact .inl (update_of_ne same ..)

theorem Withheld.step (withheld : Withheld state) (conserved : Conserved state)
    (effect : Effect state next) : Withheld next := by
  cases effect with
  | tick elapsed =>
    refine ⟨?_, withheld.taken, withheld.notFound⟩
    intro id member
    exact hgetall_eq_none_of_later (withheld.gone id member) (.inl rfl) (Nat.le_add_right ..)
  | expire id gone =>
    refine ⟨?_, withheld.taken, withheld.notFound⟩
    intro other member
    exact hgetall_eq_none_of_later (withheld.gone other member) (del_hashes ..) (le_refl _)
  | submit request submission due fresh counter =>
    refine withheld.of_moved (moved_submit request counter) rfl ?_ (fun _ => zero_le _)
      (.inl (by decide))
    intro id member
    have other := withheld.ne_of_absent
      (fun place _ => conserved.absent_of_fresh fresh place) id member
    exact hgetall_eq_none_of_later (withheld.gone id member) (.inl (submit_hashes other))
      (le_refl _)
  | readTime producer pending idle fresh counter =>
    exact withheld.of_moved (moved_readTime pending idle) rfl withheld.gone
      (fun _ => zero_le _) (.inl (by decide))
  | submitDelayed producer pending waiting =>
    have known : pending ∈ state.producers.contents :=
      mem_contents_of_get_eq_singleton waiting
    have absent := conserved.absent_of_pending known
    refine withheld.of_moved
      (moved_submitDelayed waiting (conserved.pendingIds pending known)
        (absent .delayed (by decide)))
      rfl ?_ (fun _ => zero_le _) (.inl (by decide))
    intro id member
    have other := withheld.ne_of_absent absent id member
    exact hgetall_eq_none_of_later (withheld.gone id member)
      (.inl (submitDelayed_hashes other)) (le_refl _)
  | readMoveTime mover move time => exact ⟨withheld.gone, withheld.taken, withheld.notFound⟩
  | move mover move waiting =>
    refine withheld.of_moved (moved_move mover move) rfl ?_ (fun _ => zero_le _)
      (.inl (by decide))
    intro id member
    obtain ⟨now, hashes, _⟩ := delayJobsMove_kept state.server (delayedPrefix ++ move.name)
      (queuePrefix ++ move.name) move.time move.batch
    exact hgetall_eq_none_of_later (withheld.gone id member) (.inl (congrFun hashes id))
      (le_of_eq now.symm)
  | popNothing => exact withheld
  | pop consumer names id server idle popped =>
    obtain ⟨name, ids, whole, rfl⟩ := brpop_eq_some popped
    have moved := moved_pop idle popped
    have others := withheld.of_moved (moved state.takenExpired) rfl withheld.gone
      (fun _ => zero_le _) (.inl (by decide))
    split
    next gone =>
      obtain ⟨taken, notFound⟩ := (conserved.of_inside (moved state.takenExpired) rfl
        rfl).popped_place (moved state.takenExpired)
      exact ⟨forall_mem_cons.mpr ⟨Option.isNone_iff_eq_none.mp gone, others.gone⟩,
        forall_mem_cons.mpr ⟨taken, others.taken⟩, forall_mem_cons.mpr ⟨notFound, others.notFound⟩⟩
    · exact others
  | load consumer id hash held found =>
    refine withheld.of_moved (moved_transaction held (.loaded id hash) rfl nofun) rfl
      withheld.gone (fun _ => le_refl _) (.inr ?_)
    intro other same expired
    rw [mem_singleton.mp same] at expired
    have gone := withheld.gone id expired
    rw [found] at gone
    cases gone
  | miss consumer id held =>
    exact withheld.of_moved (moved_transaction held (.missing id) rfl nofun) rfl
      withheld.gone (fun _ => le_refl _) (.inl (by simp [foundPlaces, Work.stage]))
  | decodeFails consumer id hash held =>
    exact withheld.of_moved (moved_decodeFails held) rfl withheld.gone
      (fun _ => le_refl _) (.inr (withheld.notMem_of_held held .loaded rfl (by decide)))
  | del consumer id hash held =>
    refine withheld.of_moved (moved_del held) rfl ?_ (fun _ => le_refl _)
      (.inr (withheld.notMem_of_held held .loaded rfl (by decide)))
    intro other member
    exact hgetall_eq_none_of_later (withheld.gone other member) (del_hashes ..) (le_refl _)
  | doTask consumer id hash held =>
    exact withheld.of_moved (moved_doTask held) rfl withheld.gone
      (fun _ => le_refl _) (.inr (withheld.notMem_of_held held .deleted rfl (by decide)))
  | countExpired consumer id held =>
    exact withheld.of_moved (moved_countExpired held) rfl withheld.gone
      (fun _ => le_refl _) (.inl (by decide))

/-! ### The queue as a whole -/

/-- Who has an id. -/
inductive Holder where
  | delayedSet (name : Text)
  | workList (name : Text)
  | consumer (consumer : Consumer)

def State.Holds (state : State) : Holder → Text → Prop
  | .delayedSet name, id => ∃ score, ⟨name, score, id⟩ ∈ state.server.delayed.rows
  | .workList name, id => id ∈ state.server.queues.get name
  | .consumer consumer, id => (consumer, id) ∈ state.taken

/-- In a sorted set or a work list. -/
def State.isWaiting (state : State) (id : Text) : Bool :=
  state.server.delayed.rows.any (·.member == id) || state.server.queues.contents.contains id

structure Accounted (state : State) : Prop where
  holder : ∀ submission ∈ state.submitted, ∃! holder, state.Holds holder submission.id
  listedOnce : ∀ name, (state.server.queues.get name).Nodup
  takenOnce : (state.taken.map Prod.snd).Nodup
  executedOnce : (state.executed.map (·.id)).Nodup
  executedDue : ∀ execution ∈ state.executed, ∃ submission ∈ state.submitted,
    submission.id = execution.id ∧ submission.due ≤ execution.time
  /-- A consumer that has taken an expired task has counted it or will do so. -/
  expired : ∀ id ∈ state.takenExpired, id ∉ state.executed.map (·.id) ∧
    (state.counted.count id = 1 ∨
      state.counted.count id = 0 ∧ ∃ work ∈ state.consumers.contents, work.id = id)
  countedOnce : (state.counted ++ state.executed.map (·.id)).Nodup
  expiredCounters : ∀ counterId, state.server.expiredCounters counterId =
    state.submitted.countP fun submission =>
      submission.counterId == counterId && state.counted.contains submission.id
  taskCounters : (∀ work ∈ state.consumers.contents, work.isPopped = false) →
    ∀ counterId, state.server.taskCounters counterId =
      state.submitted.countP fun submission =>
        submission.counterId == counterId && state.isWaiting submission.id

def State.idsAt (state : State) : Place → List Text
  | .pending => state.producers.contents.map (·.submission.id)
  | .delayed => state.server.delayed.rows.map (·.member)
  | .queued => state.server.queues.contents
  | .held stage => (state.consumers.contents.filter (·.stage == stage)).map (·.id)
  | .executed => state.executed.map (·.id)
  | .counted => state.counted
  | .undecoded => state.undecoded

section Accounting

theorem census_eq (place : Place) (kind : Text → Bool) :
    state.census place kind = (state.idsAt place).countP kind := by
  cases place with
  | held stage =>
    rw [State.idsAt, countP_map, countP_filter, State.census]
    apply countP_congr
    intro work _
    rw [comp_apply, Bool.and_comm]
  | pending | delayed | executed => exact countP_map.symm
  | _ => rfl

@[simp] theorem mem_idsAt_iff : id ∈ state.idsAt place ↔ 0 < state.census place (· == id) := by
  rw [census_eq, countP_pos_iff]
  simp

variable (census : Census Place Text) (kind : Text → Bool)

theorem total_submittedPlaces : census.total submittedPlaces kind =
      census .delayed kind + (census .queued kind + census.total takenPlaces kind) := by
  have queued : queued ∉ takenPlaces := by decide
  have delayed : Place.delayed ∉ insert Place.queued takenPlaces := by decide
  exact (Finset.sum_insert delayed).trans (congrArg _ (Finset.sum_insert queued))

theorem Conserved.census_le_one (conserved : Conserved state) (place : Place) (id : Text) :
    state.census place (· == id) ≤ 1 :=
  le_trans (state.census.le_total (mem_everywhere place) _) (conserved.once id)

theorem Conserved.nodup_idsAt (conserved : Conserved state) (place : Place) :
    (state.idsAt place).Nodup := by
  rw [nodup_iff_count_le_one]
  intro id
  rw [List.count, ← census_eq]
  exact conserved.census_le_one place id

theorem Conserved.total_submitted (conserved : Conserved state)
    (member : submission ∈ state.submitted) :
    state.census .delayed (· == submission.id) + (state.census .queued (· == submission.id) +
      (state.taken.countP fun taken => taken.2 == submission.id)) = 1 := by
  have once := conserved.once submission.id
  have present : 0 < state.submitted.countP fun other => other.id == submission.id :=
    countP_pos_iff.mpr ⟨submission, member, beq_self_eq_true _⟩
  rw [conserved.submitted (· == submission.id)] at present
  rw [conserved.taken (· == submission.id), ← total_submittedPlaces]
  rw [total_everywhere] at once
  omega

def State.holdings (state : State) (id : Text) : Holder → Nat
  | .delayedSet _ => state.census .delayed (· == id)
  | .workList _ => state.census .queued (· == id)
  | .consumer _ => state.taken.countP fun taken => taken.2 == id

theorem holdings_pos {holder : Holder} (holds : state.Holds holder id) :
    0 < state.holdings id holder := by
  cases holder with
  | delayedSet name =>
    obtain ⟨score, row⟩ := holds
    exact countP_pos_iff.mpr ⟨_, row, beq_self_eq_true _⟩
  | workList name =>
    exact countP_pos_iff.mpr ⟨_, mem_contents_of_mem_get holds, beq_self_eq_true _⟩
  | consumer consumer => exact countP_pos_iff.mpr ⟨_, holds, beq_self_eq_true _⟩

section

variable (conserved : Conserved state)

include conserved

theorem Conserved.holder_unique (member : submission ∈ state.submitted) {first second : Holder}
    (here : state.Holds first submission.id) (there : state.Holds second submission.id) :
    first = second := by
  have total := conserved.total_submitted member
  have one := holdings_pos here
  have two := holdings_pos there
  cases first with
  | delayedSet first =>
    cases second with
    | delayedSet second =>
      obtain ⟨score, row⟩ := here
      obtain ⟨otherScore, otherRow⟩ := there
      have same := eq_of_countP_le_one (conserved.census_le_one .delayed submission.id) row
        (beq_self_eq_true _) otherRow (beq_self_eq_true _)
      rw [(Delayed.mk.inj same).1]
    | _ =>
      simp only [State.holdings] at one two
      omega
  | workList first =>
    cases second with
    | workList second =>
      have once : state.server.queues.contents.count submission.id ≤ 1 :=
        conserved.census_le_one .queued submission.id
      rw [name_unique once here there]
    | _ =>
      simp only [State.holdings] at one two
      omega
  | consumer first =>
    cases second with
    | consumer second =>
      have once : (state.taken.countP fun taken => taken.2 == submission.id) ≤ 1 := by omega
      have same := eq_of_countP_le_one once here (beq_self_eq_true _) there (beq_self_eq_true _)
      rw [(Prod.mk.inj same).1]
    | _ =>
      simp only [State.holdings] at one two
      omega

theorem Conserved.exists_holder
    (member : submission ∈ state.submitted) : ∃ holder, state.Holds holder submission.id := by
  have total := conserved.total_submitted member
  by_cases delayed : 0 < state.census .delayed (· == submission.id)
  · obtain ⟨row, inside, same⟩ := countP_pos_iff.mp delayed
    refine ⟨.delayedSet row.set, row.score, ?_⟩
    rw [← beq_iff_eq.mp same]
    exact inside
  · by_cases queued : 0 < state.census .queued (· == submission.id)
    · obtain ⟨id, inside, same⟩ := countP_pos_iff.mp queued
      obtain ⟨name, listed⟩ := mem_contents_iff.mp inside
      rw [beq_iff_eq.mp same] at listed
      exact ⟨.workList name, listed⟩
    · have taken : 0 < state.taken.countP fun taken => taken.2 == submission.id := by omega
      obtain ⟨⟨consumer, id⟩, inside, same⟩ := countP_pos_iff.mp taken
      obtain rfl : id = submission.id := beq_iff_eq.mp same
      exact ⟨.consumer consumer, inside⟩

theorem Conserved.mem_submitted
    (inside : place ∈ submittedPlaces) (member : id ∈ state.idsAt place) :
    ∃ submission ∈ state.submitted, submission.id = id := by
  have present := mem_idsAt_iff.mp member
  have total := state.census.le_total inside (· == id)
  rw [← conserved.submitted (· == id)] at total
  obtain ⟨submission, known, same⟩ := countP_pos_iff.mp (lt_of_lt_of_le present total)
  exact ⟨submission, known, beq_iff_eq.mp same⟩

theorem Conserved.countP_submitted {places : Finset Place}
    (subset : places ⊆ submittedPlaces) {isIn : Text → Bool}
    (inside : ∀ id, isIn id = true ↔ 0 < state.census.total places (· == id)) (counterId : Text) :
    (state.submitted.countP fun submission =>
        submission.counterId == counterId && isIn submission.id) =
      state.census.total places (ofCounter counterId) := by
  have once (id : Text) : state.census.total submittedPlaces (· == id) ≤ 1 := by
    have once := conserved.once id
    rw [total_everywhere] at once
    omega
  rw [← Census.total_and census_eq subset once inside, ← conserved.submitted]
  apply countP_congr
  intro submission member
  rw [ofCounter, conserved.counterIds submission member]

end

theorem isWaiting_iff (id : Text) :
    state.isWaiting id = true ↔
      0 < state.census.total {delayed, queued} (· == id) := by
  have total : state.census.total {delayed, queued} (· == id) =
      state.census .delayed (· == id) + state.census .queued (· == id) :=
    Finset.sum_pair (by decide)
  rw [total, State.isWaiting, Bool.or_eq_true, any_eq_true, contains_iff_mem,
    add_pos_iff_pos_or_pos, ← mem_idsAt_iff, ← mem_idsAt_iff]
  simp [State.idsAt]

theorem Conserved.taskCounters_of_idle (conserved : Conserved state)
    (idle : ∀ work ∈ state.consumers.contents, work.isPopped = false) (counterId : Text) :
    state.server.taskCounters counterId = state.submitted.countP fun submission =>
        submission.counterId == counterId && state.isWaiting submission.id := by
  have popped : state.census (.held .popped) (ofCounter counterId) = 0 := by
    apply countP_eq_zero.mpr
    intro work member both
    have notPopped := idle work member
    cases work with
    | popped id => cases notPopped
    | _ => cases both
  have total : state.census.total waitingPlaces (ofCounter counterId) =
      state.census.total {delayed, queued} (ofCounter counterId) +
        state.census (.held .popped) (ofCounter counterId) := by
    simp only [Census.total, waitingPlaces]
    rw [Finset.sum_insert (by decide), Finset.sum_insert (by decide), Finset.sum_singleton,
      Finset.sum_pair (by decide), add_assoc]
  rw [conserved.countP_submitted (by decide) isWaiting_iff, conserved.taskCounters, total,
    popped, add_zero]

theorem Conserved.expiredCounters_eq (conserved : Conserved state) (counterId : Text) :
    state.server.expiredCounters counterId = state.submitted.countP fun submission =>
        submission.counterId == counterId && state.counted.contains submission.id := by
  have single (kind : Text → Bool) : state.census.total {counted} kind =
      state.census .counted kind := Finset.sum_singleton ..
  have inside (id : Text) : state.counted.contains id = true ↔
      0 < state.census.total {counted} (· == id) := by
    rw [single, ← mem_idsAt_iff, contains_iff_mem]
    rfl
  rw [conserved.countP_submitted (by decide) inside, single, conserved.expiredCounters]

theorem total_takenPlaces : census.total takenPlaces kind =
      census (.held .popped) kind + census (.held .loaded) kind + census (.held .deleted) kind +
        census (.held .missing) kind + census .executed kind + census .counted kind +
        census .undecoded kind := by simp [Census.total, takenPlaces, add_assoc]

theorem counted_or_held (conserved : Conserved state) (withheld : Withheld state)
    (member : id ∈ state.takenExpired) :
    state.counted.count id = 1 ∨
      state.counted.count id = 0 ∧ ∃ work ∈ state.consumers.contents, work.id = id := by
  have once := conserved.once id
  have taken := withheld.taken id member
  have notFound := withheld.notFound id member
  have loaded := notFound (.held .loaded) (by decide)
  have deleted := notFound (.held .deleted) (by decide)
  have executed := notFound .executed (by decide)
  have undecoded := notFound .undecoded (by decide)
  have held (stage : Stage) (present : 0 < state.census (.held stage) (· == id)) :
      ∃ work ∈ state.consumers.contents, work.id = id := by
    obtain ⟨work, working, both⟩ := countP_pos_iff.mp present
    exact ⟨work, working, beq_iff_eq.mp (Bool.and_eq_true_iff.mp both).2⟩
  have count : state.counted.count id = state.census .counted (· == id) := rfl
  rw [total_everywhere, total_submittedPlaces] at once
  rw [total_takenPlaces] at once taken
  by_cases popped : 0 < state.census (.held .popped) (· == id)
  · exact .inr ⟨by omega, held .popped popped⟩
  · by_cases missing : 0 < state.census (.held .missing) (· == id)
    · exact .inr ⟨by omega, held .missing missing⟩
    · exact .inl (by omega)

theorem accounted_of_invariants (conserved : Conserved state) (timely : Timely state)
    (withheld : Withheld state) : Accounted state where
  holder := fun submission member => by
    obtain ⟨holder, holds⟩ := conserved.exists_holder member
    exact ⟨holder, holds, fun other there => conserved.holder_unique member there holds⟩
  listedOnce := fun name => by
    rw [nodup_iff_count_le_one]
    intro id
    exact le_trans count_get_le (conserved.census_le_one .queued id)
  takenOnce := by
    rw [nodup_iff_count_le_one]
    intro id
    have once := conserved.once id
    rw [total_everywhere, total_submittedPlaces, ← conserved.taken (· == id)] at once
    rw [List.count, countP_map]
    change (state.taken.countP fun taken => taken.2 == id) ≤ 1
    omega
  executedOnce := conserved.nodup_idsAt .executed
  executedDue := fun execution member => by
    have inside : executed ∈ submittedPlaces := by decide
    obtain ⟨submission, known, same⟩ :=
      conserved.mem_submitted inside (mem_map.mpr ⟨execution, member, rfl⟩)
    exact ⟨submission, known, same, timely.executed execution member submission known same⟩
  expired := fun id member => by
    refine ⟨?_, counted_or_held conserved withheld member⟩
    intro executed
    have present : id ∈ state.idsAt .executed := executed
    rw [mem_idsAt_iff, withheld.notFound id member .executed (by decide)] at present
    exact lt_irrefl 0 present
  countedOnce := by
    refine nodup_append.mpr ⟨conserved.nodup_idsAt .counted, conserved.nodup_idsAt .executed, ?_⟩
    rintro id counted other executed rfl
    have here : id ∈ state.idsAt .counted := counted
    have there : id ∈ state.idsAt .executed := executed
    rw [mem_idsAt_iff] at here there
    have none : state.census .executed (· == id) = 0 := conserved.elsewhere here nofun
    omega
  expiredCounters := conserved.expiredCounters_eq
  taskCounters := conserved.taskCounters_of_idle

end Accounting

theorem conserved_start (now : Nat) : Conserved (start now) where
  once := fun id => by
    simp [Census.total, everywhere, submittedPlaces, State.census, start, Table.empty]
  submitted := fun kind => by
    simp [Census.total, submittedPlaces, State.census, start, Table.empty]
  taken := fun kind => by simp [Census.total, takenPlaces, State.census, start]
  taskCounters := fun counterId => by
    simp [Census.total, waitingPlaces, State.census, start, Table.empty]
  expiredCounters := fun counterId => rfl
  counterIds := nofun
  pendingIds := nofun

/-- In every run of any number of producers, movers and consumers every task is
accounted for. -/
theorem queue_accounted {now : Nat} {state : State}
    (reached : machine.Reaches FreshIds (start now) state) : Accounted state := by
  have invariants : Conserved state ∧ Timely state ∧ Withheld state := by
    apply reached.invariant
    · exact ⟨conserved_start now, ⟨nofun, nofun, nofun, nofun⟩, ⟨nofun, nofun, nofun⟩⟩
    · rintro state event next ⟨conserved, timely, withheld⟩ fresh stepped
      have effect := effect_of_step? fresh stepped
      exact ⟨conserved.step effect, timely.step conserved effect, withheld.step conserved effect⟩
  obtain ⟨conserved, timely, withheld⟩ := invariants
  exact accounted_of_invariants conserved timely withheld

/-! ### A run -/

def freshIds (state : State) : Event → Bool
  | .submit request | .readTime _ request _ =>
    request.counterId?.all fun counterId =>
      decide (request.id counterId ∉ state.usedIds ∧ '\n' ∉ request.id counterId)
  | _ => true

theorem freshIds_of_check {event : Event} (checked : freshIds state event = true) :
    FreshIds state event := by
  cases event with
  | submit request | readTime producer request delay =>
    intro counterId known
    rw [freshIds, known] at checked
    simpa using checked
  | _ => trivial

def pingTask (uuid : Uuid) : Request where
  queue := "general".toList
  taskType := "api".toList
  taskData := .array (.text "ping".toList)
  expireIn := some 1
  tenantId := 1
  statusUpdate := false
  uuid := uuid

def firstUuid : Uuid := ⟨['a'], by decide, by decide⟩

def secondUuid : Uuid := ⟨['b'], by decide, by decide⟩

def exampleRun : List Event :=
  [.submit (pingTask firstUuid), .readTime 0 (pingTask secondUuid) 100, .submitDelayed 0,
    .pop 0 ["Queue:general".toList], .work 0 .transaction, .work 0 .del, .work 0 .doTask,
    .tick 200000, .readMoveTime 0 "general".toList 1000, .move 0, .tick 2000000,
    .pop 1 ["Queue:general".toList], .work 1 .transaction, .work 1 .countExpired]

def pingCounter : Text := "Queue:general:api:ping".toList

theorem queue_accounted_after_expiration :
    ∃ state, machine.Reaches FreshIds (start 0) state ∧
      state.executed.map (·.id) = [generateId firstUuid pingCounter] ∧
      state.counted = [generateId secondUuid pingCounter] ∧
      state.server.taskCounters pingCounter = 0 ∧
      state.server.expiredCounters pingCounter = 1 ∧
      Accounted state := by
  have replayed : (machine.replay? freshIds (start 0) exampleRun).map
        (fun state => (state.executed.map (·.id), state.counted,
          state.server.taskCounters pingCounter, state.server.expiredCounters pingCounter)) =
      some ([generateId firstUuid pingCounter], [generateId secondUuid pingCounter], 0, 1) := by
    decide +kernel
  rcases Option.map_eq_some_iff.mp replayed with ⟨state, run, view⟩
  simp only [Prod.mk.injEq] at view
  have reached := Machine.reaches_of_checked (fun _ _ => freshIds_of_check) run
  exact ⟨state, reached, view.1, view.2.1, view.2.2.1, view.2.2.2, queue_accounted reached⟩

end PacketFence.Queue
