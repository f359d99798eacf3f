import HttpExchange.Proofs.Lists
import HttpExchange.Proofs.Streams.Settings
import HttpExchange.Streams.Session

/-! # Sessions as runs of a lobby

Whatever a session does with its table, its tasks and its clock, is a run of a lobby: the caller of
the session and the tasks that wait for settings are callers of the lobby, and only what the steps
tell of the connection reaches the barrier. So what holds of all lobbies holds of the answers of a
session. Main statements: `leads_performAll` and `barrier_performAll`. -/

namespace HttpExchange.Streams

variable {π : Type}

/-! ## News of the connection -/

/-- Whether the barrier takes notice of an event. -/
def Event.isNews (e : Event π) : Bool := e.isFailure || e.settings?.isSome

theorem accepted?_filter_isNews (events : List (Event π)) :
    accepted? (events.filter Event.isNews) = accepted? events := by
  induction events with
  | nil => rfl
  | cons e events ih => cases e <;> simp [Event.isNews, Event.isFailure, Event.settings?,
      accepted?_cons, ih]

theorem behind_filter_isNews (events : List (Event π)) :
    Barrier.behind (events.filter Event.isNews) = .behind events := by
  have hany : (events.filter Event.isNews).any Event.isFailure = events.any Event.isFailure := by
    rw [List.any_filter]
    congr 1
    funext e
    cases e <;> rfl
  rw [Barrier.behind, hany, accepted?_filter_isNews, ← Barrier.behind]

namespace Session

/-- What a step tells of the connection. -/
def Step.news? : Step → Option (Event Text)
  | .settings max => some (.settings ⟨max⟩)
  | .failAll cause => some (.failAll cause)
  | _ => none

/-- Any number of steps, with the replies. -/
def performAll (s : Session) : List Step → List Reply × Session
  | [] => ([], s)
  | step :: steps =>
    let (reply, s) := s.perform step
    let (replies, s) := s.performAll steps
    (reply :: replies, s)

/-- What a reply tells of the settings. -/
def Reply.heard : Reply → List (Except Failure PeerSettings)
  | .answered (.settings result) _ => [result]
  | _ => []

/-- The reply to a caller that has waited for the end of a task. -/
def Reply.ofEnded : Option Ended → Reply
  | some (.answered answer waited) => .answered answer waited
  | _ => .nothing

/-! ## A session in a lobby -/

/-- The lobby has the table of the session, its task of each place that waits for settings is a
caller of the lobby, and so is every task that has got an answer. -/
structure Shows (s : Session) (l : Lobby Text) : Prop where
  table : l.table = s.table
  waiting : ∀ i task, s.tasks[i]? = some task → task.goal = .settings → task.ended = none →
    i + 1 ∈ l.waiting
  answered : ∀ i task result waited, s.tasks[i]? = some task →
    task.ended = some (.answered (.settings result) waited) → (i + 1, result) ∈ l.answered

theorem shows_new (settingsTimeout : Nat) : (new settingsTimeout).Shows Lobby.empty :=
  ⟨rfl, by simp [new], by simp [new]⟩

/-- From a lobby that shows the one session, turns lead to a lobby that shows the other. They bring
this news of the connection, and somebody gets these answers. -/
def Leads (s s' : Session) (news : List (Event Text))
    (heard : List (Except Failure PeerSettings)) : Prop :=
  ∀ l, s.Shows l → ∃ turns, s'.Shows (l.run turns) ∧
    (happened turns).filter Event.isNews = news ∧
    ∀ result ∈ heard, ∃ caller, (caller, result) ∈ (l.run turns).answered

variable {s s' s'' : Session} {news news' : List (Event Text)}
  {heard heard' : List (Except Failure PeerSettings)}

theorem Leads.refl (s : Session) : s.Leads s [] [] :=
  fun _ hshows => ⟨[], hshows, rfl, fun _ hresult => by cases hresult⟩

theorem Leads.trans (h : s.Leads s' news heard) (h' : s'.Leads s'' news' heard') :
    s.Leads s'' (news ++ news') (heard ++ heard') := by
  intro l hshows
  obtain ⟨turns, hshows, hnews, hheard⟩ := h l hshows
  obtain ⟨turns', hshows', hnews', hheard'⟩ := h' (l.run turns) hshows
  refine ⟨turns ++ turns', ?_, ?_, ?_⟩
  · rw [Lobby.run_append]
    exact hshows'
  · rw [happened, List.filterMap_append, List.filter_append]
    exact congrArg₂ (· ++ ·) hnews hnews'
  · intro result hresult
    rw [Lobby.run_append]
    rcases List.mem_append.mp hresult with hold | hnew
    · obtain ⟨caller, hanswer⟩ := hheard result hold
      exact ⟨caller, Lobby.answered_subset_run _ turns' hanswer⟩
    · exact hheard' result hnew

theorem Leads.quiet_trans (h : s.Leads s' [] []) (h' : s'.Leads s'' news heard) :
    s.Leads s'' news heard := h.trans h'

/-! ## Tasks -/

/-- The tasks stay in their places, and none of them begins to wait or gets an answer. -/
def KeepsTasks (s s' : Session) : Prop :=
  ∀ (i : Nat) (task' : Task), s'.tasks[i]? = some task' → ∃ task : Task,
    s.tasks[i]? = some task ∧ task'.goal = task.goal ∧
      (task'.ended = task.ended ∨ task'.ended = some .aborted)

theorem KeepsTasks.of_eq (h : s'.tasks = s.tasks) : s.KeepsTasks s' := by
  intro i task' htask
  exact ⟨task', h ▸ htask, rfl, .inl rfl⟩

section

variable {l l' : Lobby Text}

/-- A lobby goes on showing a session that keeps its tasks, whoever else comes or leaves. -/
theorem Shows.of_keepsTasks (h : s.Shows l) (hkeeps : s.KeepsTasks s')
    (htable : l'.table = s'.table) (hwaiting : ∀ i, i + 1 ∈ l.waiting → i + 1 ∈ l'.waiting)
    (hanswered : l.answered ⊆ l'.answered) : s'.Shows l' := by
  refine ⟨htable, ?_, ?_⟩
  · intro i task' htask' hgoal hended
    obtain ⟨task, htask, hsame, hkept | habort⟩ := hkeeps i task' htask'
    · exact hwaiting i (h.waiting i task htask (hsame ▸ hgoal) (hkept ▸ hended))
    · rw [habort] at hended
      cases hended
  · intro i task' result waited htask' hended
    obtain ⟨task, htask, -, hkept | habort⟩ := hkeeps i task' htask'
    · exact hanswered (h.answered i task result waited htask (hkept ▸ hended))
    · rw [habort] at hended
      cases hended

/-- Where one task has ended with an answer, its place in the lobby is free. -/
theorem Shows.of_answered {front others : List Task} {task : Task} {answer : Answer} {waited : Nat}
    (h : s.Shows l) (htasks : s.tasks = front ++ task :: others)
    (hwaiting : ∀ i, i ≠ front.length → i + 1 ∈ l.waiting → i + 1 ∈ l'.waiting)
    (hanswered : l.answered ⊆ l'.answered)
    (hanswer : ∀ result, answer = .settings result → (front.length + 1, result) ∈ l'.answered) :
    Shows { s with
      table := l'.table
      tasks := front ++ { task with ended := some (.answered answer waited) } :: others } l' := by
  refine ⟨rfl, ?_, ?_⟩
  · intro i task' htask' hgoal hended
    rcases getElem?_replaced (x := task) htask' with ⟨-, rfl⟩ | ⟨hne, hold⟩
    · cases hended
    · exact hwaiting i hne (h.waiting i task' (htasks ▸ hold) hgoal hended)
  · intro i task' result waited' htask' hended
    rcases getElem?_replaced (x := task) htask' with ⟨rfl, rfl⟩ | ⟨-, hold⟩
    · cases hended
      exact hanswer result rfl
    · exact hanswered (h.answered i task' result waited' (htasks ▸ hold) hended)

end

/-- What happens to the table alone is an event. -/
theorem Leads.of_event (e : Event Text) (htable : s'.table = s.table.apply e)
    (hkeeps : s.KeepsTasks s') : s.Leads s' ([e].filter Event.isNews) [] := by
  intro l hshows
  have hlobby : (l.run [.event e]).table = s'.table := by
    rw [htable, ← hshows.table]
    rfl
  exact ⟨[.event e], hshows.of_keepsTasks hkeeps hlobby (fun _ hcaller => hcaller)
    (Lobby.answered_subset_run l _), rfl, fun _ hresult => by cases hresult⟩

theorem Leads.of_keepsTasks (htable : s'.table = s.table) (hkeeps : s.KeepsTasks s') :
    s.Leads s' [] [] := by
  intro l hshows
  exact ⟨[], hshows.of_keepsTasks hkeeps (hshows.table.trans htable.symm) (fun _ hcaller => hcaller)
    (List.Subset.refl _), rfl, fun _ hresult => by cases hresult⟩

theorem leads_sweep (s : Session) : s.Leads s.sweep [] [] := by
  rw [sweep]
  split
  · exact .refl s
  · exact .of_event .sever rfl (.of_eq rfl)

/-- What a poll gives is an event for the table, or a look at the barrier. -/
theorem poll_cases {goal : Goal} {deadline : Nat} {answer : Answer} {table : Table Text}
    (h : s.poll goal deadline = some (answer, table)) :
    (∃ id timeUp result, goal = .response id ∧ answer = .response result ∧
        table = s.table.apply (.wait id timeUp)) ∨
      ∃ timeUp result, goal = .settings ∧ answer = .settings result ∧ table = s.table ∧
        s.table.pollSettings timeUp = some result := by
  cases goal with
  | response id =>
      obtain ⟨⟨result, left⟩, hpoll, heq⟩ := Option.map_eq_some_iff.mp h
      obtain ⟨rfl, rfl⟩ := Prod.mk.inj heq
      refine .inl ⟨id, decide (deadline ≤ s.now), result, rfl, rfl, ?_⟩
      rw [Table.apply, hpoll]
  | settings =>
      obtain ⟨result, hpoll, heq⟩ := Option.map_eq_some_iff.mp h
      obtain ⟨rfl, rfl⟩ := Prod.mk.inj heq
      exact .inr ⟨_, result, rfl, rfl, rfl, hpoll⟩

/-- The task in the middle has ended with an answer: it looked, or what it waited for came. -/
theorem leads_answered {front others : List Task} {task : Task}
    (htasks : s.tasks = front ++ task :: others) (hwaits : task.ended = none) {deadline : Nat}
    {answer : Answer} {table : Table Text}
    (hpoll : s.poll task.goal deadline = some (answer, table)) (waited : Nat) :
    s.Leads { s with
      table := table
      tasks := front ++ { task with ended := some (.answered answer waited) } :: others }
      [] [] := by
  intro l hshows
  rcases poll_cases hpoll with ⟨id, timeUp, result, -, rfl, rfl⟩ |
    ⟨timeUp, result, hgoal, rfl, rfl, hlook⟩
  · have htable : (l.run [.event (.wait id timeUp)]).table = s.table.apply (.wait id timeUp) := by
      rw [← hshows.table]
      rfl
    refine ⟨[.event (.wait id timeUp)], ?_, rfl, fun _ hresult => by cases hresult⟩
    rw [← htable]
    exact hshows.of_answered htasks (fun _ _ hcaller => hcaller) (Lobby.answered_subset_run l _)
      fun _ heq => by cases heq
  · have hplace : s.tasks[front.length]? = some task := by simp [htasks]
    have hcaller := hshows.waiting front.length task hplace hgoal hwaits
    have hrun : l.run [.look (front.length + 1) timeUp] = { l.leave (front.length + 1) with
        answered := (front.length + 1, result) :: l.answered } :=
      Lobby.look_of_mem hcaller (hshows.table ▸ hlook)
    have htable : (l.run [.look (front.length + 1) timeUp]).table = s.table := by
      rw [hrun]
      exact hshows.table
    refine ⟨[.look (front.length + 1) timeUp], ?_, rfl, fun _ hresult => by cases hresult⟩
    rw [← htable]
    refine hshows.of_answered htasks ?_ (Lobby.answered_subset_run l _) ?_
    · intro i hne hother
      rw [hrun]
      simp [Lobby.leave, hother, hne]
    · rintro other ⟨⟩
      rw [hrun]
      exact List.mem_cons_self

theorem leads_endOne {passed others : List Task} (htasks : s.tasks = passed.reverse ++ others)
    (h : s.endOne passed others = some s') : s.Leads s' [] [] := by
  induction others generalizing passed with
  | nil => cases h
  | cons task others ih =>
      rw [endOne] at h
      split at h
      · rename_i answer table hwaits hpoll
        obtain rfl := Option.some.inj h
        exact (leads_answered htasks hwaits hpoll _).quiet_trans (leads_sweep _)
      · exact ih (by simp [htasks]) h

theorem leads_runTasks (fuel : Nat) (s : Session) : s.Leads (runTasks fuel s) [] [] := by
  induction fuel generalizing s with
  | zero => exact .refl s
  | succ fuel ih =>
      rw [runTasks]
      split
      · rename_i s' hend
        have htasks : s.tasks = ([] : List Task).reverse ++ s.tasks := rfl
        exact (leads_endOne htasks hend).quiet_trans (ih s')
      · exact .refl s

theorem leads_settle (s : Session) : s.Leads s.settle [] [] := leads_runTasks _ s

theorem leads_moveClock (s : Session) (limit : Nat) : s.Leads (s.moveClock limit) [] [] :=
  .of_keepsTasks rfl (.of_eq rfl)

theorem leads_sleepUntil (target fuel : Nat) (s : Session) :
    s.Leads (sleepUntil target fuel s) [] [] := by
  induction fuel generalizing s with
  | zero => exact .refl s
  | succ fuel ih =>
      have hmoved := (leads_moveClock s target).quiet_trans (leads_settle _)
      rw [sleepUntil]
      split
      · exact hmoved
      · exact hmoved.quiet_trans (ih _)

/-! ## Replies -/

/-- The caller of the session looks: it comes into the lobby for this moment. -/
theorem leads_poll {goal : Goal} {deadline : Nat} {answer : Answer} {table : Table Text}
    (hpoll : s.poll goal deadline = some (answer, table)) (waited : Nat) :
    s.Leads { s with table := table } [] (Reply.answered answer waited).heard := by
  rcases poll_cases hpoll with ⟨id, timeUp, result, -, rfl, rfl⟩ |
    ⟨timeUp, result, -, rfl, rfl, hlook⟩
  · exact .of_event (.wait id timeUp) rfl (.of_eq rfl)
  · intro l hshows
    have hrun : l.run [.arrive 0, .look 0 timeUp] =
        { (l.apply (.arrive 0)).leave 0 with answered := (0, result) :: l.answered } :=
      Lobby.look_of_mem (l := l.apply (.arrive 0)) List.mem_cons_self (hshows.table ▸ hlook)
    refine ⟨[.arrive 0, .look 0 timeUp], ?_, rfl, ?_⟩
    · rw [hrun]
      refine hshows.of_keepsTasks (.of_eq rfl) hshows.table ?_ (List.subset_cons_self _ _)
      intro i hcaller
      simp [Lobby.leave, Lobby.apply, hcaller]
    · intro result' hresult
      obtain rfl := List.mem_singleton.mp hresult
      rw [hrun]
      exact ⟨0, List.mem_cons_self⟩

theorem leads_waitFor (goal : Goal) (started deadline fuel : Nat) (s : Session) :
    s.Leads (waitFor goal started deadline fuel s).2 []
      (replyTo (waitFor goal started deadline fuel s).1).heard := by
  induction fuel generalizing s with
  | zero => exact .refl s
  | succ fuel ih =>
      rw [waitFor]
      split
      · rename_i answer table hpoll
        exact leads_poll hpoll _
      · apply (leads_settle s).quiet_trans
        simp only
        split
        · rename_i answer table hpoll
          exact leads_poll hpoll _
        · exact (leads_moveClock _ deadline).quiet_trans (ih _)

theorem keepsTasks_modifyTask (s : Session) (tag : Text) {change : Task → Task}
    (hgoal : ∀ task, (change task).goal = task.goal)
    (hended : ∀ task, (change task).ended = task.ended ∨ (change task).ended = some .aborted) :
    s.KeepsTasks (s.modifyTask tag change) := by
  intro i task' htask'
  rw [modifyTask, List.getElem?_map] at htask'
  obtain ⟨task, htask, rfl⟩ := Option.map_eq_some_iff.mp htask'
  refine ⟨task, htask, ?_⟩
  split
  · exact ⟨hgoal task, hended task⟩
  · exact ⟨rfl, .inl rfl⟩

theorem leads_joinTask (tag : Text) (fuel : Nat) (s : Session) :
    s.Leads (joinTask tag fuel s).2 [] (Reply.ofEnded (joinTask tag fuel s).1).heard := by
  induction fuel generalizing s with
  | zero => exact .refl s
  | succ fuel ih =>
      rw [joinTask]
      split
      · exact .refl s
      · rename_i task htask
        split
        · rename_i ended hended
          have hkeeps : s.KeepsTasks (s.modifyTask tag fun task => { task with tag := none }) :=
            s.keepsTasks_modifyTask tag (fun _ => rfl) fun _ => .inl rfl
          intro l hshows
          refine ⟨[], hshows.of_keepsTasks hkeeps hshows.table (fun _ hcaller => hcaller)
            (List.Subset.refl _), rfl, ?_⟩
          intro result hresult
          obtain ⟨i, hplace⟩ := List.mem_iff_getElem?.mp (List.mem_of_find?_eq_some htask)
          cases ended with
          | aborted => cases hresult
          | answered answer waited =>
              cases answer with
              | response other => cases hresult
              | settings other =>
                  obtain rfl := List.mem_singleton.mp hresult
                  exact ⟨i + 1, hshows.answered i task _ waited hplace hended⟩
        · exact ((leads_moveClock s _).quiet_trans (leads_settle _)).quiet_trans (ih _)

/-! ## Steps -/

theorem leads_allocateMany (count : Nat) (s : Session) (ids : List Nat) :
    s.Leads (allocateMany count s ids).2 [] [] := by
  induction count generalizing s ids with
  | zero => exact .refl s
  | succ count ih =>
      rw [allocateMany]
      split
      · exact .refl s
      · rename_i id opened hopened
        have hevent : s.Leads { s with table := opened, held := id :: s.held } [] [] :=
          .of_event .allocate (Table.apply_allocate_of_ok hopened).symm (.of_eq rfl)
        exact hevent.quiet_trans (ih _ _)

theorem leads_release (ids : List Nat) (s : Session) :
    s.Leads { s with table := ids.foldl Table.release s.table } [] [] := by
  induction ids generalizing s with
  | nil => exact .refl s
  | cons id ids ih =>
      have hdrop : s.Leads { s with table := s.table.release id } [] [] :=
        .of_event (.drop id) rfl (.of_eq rfl)
      exact hdrop.quiet_trans (ih _)

/-- A new task has its place behind the others, and waits there. -/
theorem leads_spawn (s : Session) (tag : Text) (goal : Goal) (timeout : Nat) :
    s.Leads (s.spawn tag goal timeout) [] [] := by
  let untagged := s.modifyTask tag fun task => { task with tag := none }
  have huntagged : s.Leads untagged [] [] :=
    .of_keepsTasks rfl (s.keepsTasks_modifyTask tag (fun _ => rfl) fun _ => .inl rfl)
  refine huntagged.quiet_trans ?_
  intro l hshows
  refine ⟨[.arrive (untagged.tasks.length + 1)], ⟨hshows.table, ?_, ?_⟩, rfl, by simp⟩
  · intro i task htask hgoal hended
    rcases getElem?_concat_cases htask with hold | ⟨rfl, -⟩
    · exact List.mem_cons_of_mem _ (hshows.waiting i task hold hgoal hended)
    · exact List.mem_cons_self
  · intro i task result waited htask hended
    rcases getElem?_concat_cases htask with hold | ⟨-, rfl⟩
    · exact hshows.answered i task result waited hold hended
    · cases hended

theorem leads_abort (s : Session) (tag : Text) : s.Leads (s.abort tag).2 [] [] := by
  let aborted := s.modifyTask tag fun task => { task with ended := some .aborted }
  have hkeeps : s.KeepsTasks aborted :=
    s.keepsTasks_modifyTask tag (fun _ => rfl) fun _ => .inr rfl
  have haborted : s.Leads aborted [] [] := .of_keepsTasks rfl hkeeps
  rw [abort]
  split
  · exact .refl s
  · split
    · exact .refl s
    · simp only
      split
      · exact .of_event (.drop _) rfl hkeeps
      · exact haborted.quiet_trans (leads_sweep aborted)

theorem step_join (s : Session) (tag : Text) :
    s.step (.join tag) =
      (Reply.ofEnded (joinTask tag s.moves s).1, (joinTask tag s.moves s).2) := by
  rw [Session.step]
  rcases joinTask tag s.moves s with ⟨_ | (⟨answer, waited⟩ | _), s'⟩ <;> rfl

/-- A step brings its news, and its reply tells what somebody has got. -/
theorem leads_step (s : Session) (step : Step) :
    s.Leads (s.step step).2 step.news?.toList (s.step step).1.heard := by
  have hunhold : ∀ id, s.Leads (s.unhold id) [] [] := fun _ => .of_keepsTasks rfl (.of_eq rfl)
  cases step with
  | settings max => exact .of_event (.settings ⟨max⟩) rfl (.of_eq rfl)
  | awaitSettings => exact leads_waitFor .settings s.now (s.now + s.settingsTimeout) s.moves s
  | spawnAwaitSettings tag => exact leads_spawn s tag .settings s.settingsTimeout
  | allocate =>
      rw [Session.step]
      split
      · exact .refl s
      · rename_i id opened hopened
        exact .of_event .allocate (Table.apply_allocate_of_ok hopened).symm (.of_eq rfl)
  | allocateMany count => exact leads_allocateMany count s []
  | resolve id payload => exact .of_event (.resolve id payload) rfl (.of_eq rfl)
  | cancel id => exact .of_event (.cancel id) rfl (.of_eq rfl)
  | failAll cause => exact .of_event (.failAll cause) rfl (.of_eq rfl)
  | wait id timeout =>
      exact (hunhold id).quiet_trans
        (leads_waitFor (.response id) s.now (s.now + timeout) s.moves (s.unhold id))
  | spawnWait id timeout tag =>
      exact (hunhold id).quiet_trans (leads_spawn (s.unhold id) tag (.response id) timeout)
  | join tag =>
      rw [step_join]
      exact leads_joinTask tag s.moves s
  | abort tag => exact leads_abort s tag
  | drop id =>
      rw [Session.step]
      split
      · exact .of_event (.drop id) rfl (.of_eq rfl)
      · exact .refl s
  | dropAll =>
      exact (leads_release s.held s).quiet_trans (.of_keepsTasks rfl (.of_eq rfl))
  | dropTable =>
      have hdetached : s.Leads { s with attached := false } [] [] :=
        .of_keepsTasks rfl (.of_eq rfl)
      exact hdetached.quiet_trans (leads_sweep { s with attached := false })
  | advance millis => exact leads_sleepUntil _ _ s
  | state => exact .refl s

theorem leads_perform (s : Session) (step : Step) :
    s.Leads (s.perform step).2 step.news?.toList (s.perform step).1.heard := by
  have hstep := (s.leads_step step).trans (leads_settle _)
  rw [List.append_nil, List.append_nil] at hstep
  exact hstep

/-- Every session is a run of a lobby. -/
theorem leads_performAll (s : Session) (steps : List Step) :
    s.Leads (s.performAll steps).2 (steps.filterMap Step.news?)
      ((s.performAll steps).1.flatMap Reply.heard) := by
  induction steps generalizing s with
  | nil => exact .refl s
  | cons step steps ih =>
      have hboth := (s.leads_perform step).trans (ih _)
      cases hnews : step.news? <;> simpa [performAll, hnews] using hboth

/-- The barrier of a session tells the news, and every reply with settings has the ones that were
accepted. -/
theorem barrier_performAll (settingsTimeout : Nat) (steps : List Step) :
    let news := steps.filterMap Step.news?
    ((new settingsTimeout).performAll steps).2.table.barrier = .behind news ∧
      ∀ settings waited, .answered (.settings (.ok settings)) waited ∈
        ((new settingsTimeout).performAll steps).1 → accepted? news = some settings := by
  intro news
  obtain ⟨turns, hshows, hnews, hheard⟩ :=
    (new settingsTimeout).leads_performAll steps Lobby.empty (shows_new settingsTimeout)
  constructor
  · rw [← hshows.table, Lobby.table_run]
    change (Table.empty.run (happened turns)).barrier = _
    rw [Table.barrier_run_empty, ← behind_filter_isNews, hnews]
  · intro settings waited hreply
    obtain ⟨caller, hanswer⟩ :=
      hheard (.ok settings) (List.mem_flatMap.mpr ⟨_, hreply, List.mem_cons_self⟩)
    have haccepted := Lobby.faithful_empty.run rfl turns caller settings hanswer
    rw [List.nil_append, ← accepted?_filter_isNews, hnews] at haccepted
    exact haccepted

end Session

end HttpExchange.Streams
