import Custody.Proofs.Docker.Login

/-! What the trail claims has been done on a remote host, and what the host has answered. -/
namespace Custody.Docker
open Act World

/-- What is done on a remote host and put on record. -/
inductive Task where
  | login (c : Credentials)
  | logout (registry : Text)
  | helper (name : Text)
  | cleanup

namespace Task

def act (remote : Remote) : Task → Act Bool
  | login c => Docker.login remote c
  | logout registry => Docker.logout remote registry
  | helper name => configureHelper remote name
  | cleanup => Docker.cleanup remote

def event : Task → Audit.Event
  | login _ | logout _ => .authentication
  | helper _ => .configuration
  | cleanup => .fileAccess

def action : Task → Audit.Action
  | login _ => .login
  | logout _ => .logout
  | helper _ => .modify
  | cleanup => .delete

/-- An entry that claims that a task has been done. -/
structure Claims (t : Task) (e : Audit.Entry) : Prop where
  event : e.event = t.event
  action : e.action = t.action
  result : e.result = .success

/-- The commands that tell whether there is anything to do. -/
def probes : Task → List Text
  | login _ | logout _ => []
  | helper name => [findHelper name]
  | cleanup => [findFile]

/-- The commands that do it. A login has none without a password in the clear. -/
def changes (w : World) : Task → Except Failure (List Text)
  | login c => (c.clear w).map fun p => [loginCommand c.username p c.registry]
  | logout registry => .ok [logoutCommand registry]
  | helper name => .ok (helperCommands name)
  | cleanup => .ok [removeCommand]

/-- The commands were sent, right after those that look for something to do. -/
def Sent (t : Task) (commands : List Text) (w w' : World) : Prop :=
  commands.reverse ++ (t.probes.reverse ++ w.site.sent) <:+ w'.site.sent

instance (t : Task) (commands : List Text) (w w' : World) : Decidable (t.Sent commands w w') :=
  inferInstanceAs (Decidable (_ <:+ _))

/-- All commands that do a task were sent, and each answer says that it succeeded. -/
def Done (remote : Remote) (t : Task) (w w' : World) : Prop :=
  ∃ commands, t.changes w = .ok commands ∧ t.Sent commands w w' ∧
    Succeed remote (t.probes.reverse ++ w.site.sent) commands

/-- What a task adds to the trail claims nothing that has not been done and answered so. -/
def Truthful (remote : Remote) (t : Task) (w : World) : Prop :=
  let w' := (t.act remote).after w
  ∃ es, w'.queued = w.queued ++ es ∧ ∀ e ∈ es, t.Claims e →
    t.Done remote w w' ∧ (t.act remote).result w = .ok true

/-- A task takes its commands for done although one of the answers says that it failed. -/
def Overlooks (remote : Remote) (t : Task) (w : World) : Prop :=
  (t.act remote).result w = .ok true ∧ ∃ commands, t.changes w = .ok commands ∧
    t.Sent commands w ((t.act remote).after w) ∧ ¬Succeed remote (t.probes.reverse ++ w.site.sent) commands

/-- Logins and logouts look at the answers to what they send. -/
def Checked : Task → Prop
  | login _ | logout _ => True
  | helper _ | cleanup => False

variable {remote : Remote} {t : Task} {w w' : World}

theorem not_claims_of_isOpening {e : Audit.Entry} (h : Audit.IsOpening e) : ¬t.Claims e := by
  obtain ⟨now, rfl⟩ := h
  rintro ⟨hevent, -, -⟩
  cases t <;> cases hevent

/-- The ends of a task: nothing is claimed, and if the task is content its commands were not needed; or it is claimed after
all of them were sent. -/
inductive Ends (remote : Remote) (t : Task) (w : World) : EStateM.Result Failure World Bool → Prop where
  | failed (f : Failure) (w' : World) (works : Works (fun e => ¬t.Claims e) w w') : Ends remote t w (.error f w')
  | unclaimed (answer : Bool) (w' : World) (works : Works (fun e => ¬t.Claims e) w w')
      (needless : answer = true → ∀ commands, t.changes w = .ok commands → ¬t.Sent commands w w') :
      Ends remote t w (.ok answer w')
  | claimed (r : Audit.Report) (commands : List Text) (before told w' : World)
      (words : r.Words t.event t.action .success) (changes : t.changes w = .ok commands)
      (sent : t.Sent commands w before)
      (checked : t.Checked → Succeed remote (t.probes.reverse ++ w.site.sent) commands)
      (works : Works (fun e => ¬t.Claims e) w before) (log : Audit.log r before = .ok () told)
      (later : Works (fun e => ¬t.Claims e) told w') : Ends remote t w (.ok true w')

theorem ends_of_log {r : Audit.Report} {commands : List Text} (words : r.Words t.event t.action .success)
    (changes : t.changes w = .ok commands) (sent : t.Sent commands w w')
    (checked : t.Checked → Succeed remote (t.probes.reverse ++ w.site.sent) commands)
    (works : Works (fun e => ¬t.Claims e) w w') :
    Ends remote t w ((do Audit.log r; return true : Act Bool) w') := by
  rcases Audit.log_cases words.told w' with ⟨w₁, h⟩ | ⟨f, w₁, fresh, hstart, h, hr⟩
  · rw [bind_of_ok h]
    exact .claimed r commands w' w₁ w₁ words changes sent checked works h (.refl w₁)
  · rw [bind_of_error h]
    have hfails := works_of_reports (hr.mono fun _ => not_claims_of_isOpening (t := t)) fun hl =>
      absurd (hl fresh) hstart
    exact .failed f w₁ (works.trans hfails)

end Task

section Reaching
variable {α : Type} {a : Act α} {message : String} {w w' : World}

theorem reached_of_ok {x : α} (h : a w = .ok x w') : reached a message w = .ok (some x) w' :=
  orElse_of_ok (bind_of_ok h)

theorem reached_of_error (message : String) {f : Failure} (h : a w = .error f w') :
    (∃ v, reached a message w = .ok none v) ∨ ∃ v, reached a message w = .error f v := by
  have hfails : (do return some (← a) : Act (Option α)) w = .error f w' := bind_of_error h
  cases hf : f.isSystem with
  | true => exact Or.inl ⟨_, orElse_of_sort hfails hf⟩
  | false => exact Or.inr ⟨_, orElse_of_not_sort hfails hf⟩

theorem works_reached {P : Audit.Entry → Prop} (h : a.Keeps (Works P)) : (reached a message).Keeps (Works P) :=
  .orElse (.bind h fun _ => .pure _) fun _ => .bind (works_tell _ _ _) fun _ => .pure _

end Reaching

variable {remote : Remote} {P : Audit.Entry → Prop} {w w' : World}

theorem words_doneReport (event : Audit.Event) (action : Audit.Action) (details resource : Text) :
    (doneReport event action details resource).Words event action .success := ⟨rfl, rfl, rfl, rfl⟩

theorem works_useHelper (helper : Text) : (useHelper remote helper).Keeps (Works P) := by
  refine .bind (works_execute _ _) fun found => ?_
  split
  · exact .bind (works_tell _ _ _) fun _ => .pure _
  · exact .bind (works_executeAll _ _) fun _ => .pure _

theorem works_remove : (remove remote).Keeps (Works P) := by
  refine .bind (works_execute _ _) fun found => ?_
  split
  · exact .pure _
  · exact .bind (works_execute _ _) fun _ => .pure _

theorem useHelper_eq_ok {helper : Text} (h : useHelper remote helper w = .ok true w') :
    w'.site.sent = (helperCommands helper).reverse ++ findHelper helper :: w.site.sent := by
  obtain ⟨found, v, hfind, h⟩ := of_bind_eq_ok h
  obtain ⟨-, rfl⟩ := execute_eq_ok hfind
  split at h
  · cases h
  · obtain ⟨u, w₁, hall, hreturn⟩ := of_bind_eq_ok h
    cases hreturn
    exact executeAll_eq_ok hall

theorem remove_eq_ok {found : Bool} (h : remove remote w = .ok found w') :
    w'.site.sent = (if found then [removeCommand] else []) ++ findFile :: w.site.sent := by
  obtain ⟨r, v, hfind, h⟩ := of_bind_eq_ok h
  obtain ⟨-, rfl⟩ := execute_eq_ok hfind
  split at h
  · cases h
    rfl
  · obtain ⟨r', w₁, hremove, hreturn⟩ := of_bind_eq_ok h
    obtain ⟨-, rfl⟩ := execute_eq_ok hremove
    cases hreturn
    rfl

namespace Task

theorem ends_login (hsystem : FailsAsSystem remote) (c : Credentials) (w : World) :
    Ends remote (.login c) w (Docker.login remote c w) := by
  have haside : ∀ e, Aside e → ¬(Task.login c).Claims e := by
    rintro e haside ⟨hevent, haction, -⟩
    rw [Aside, isLogin, hevent, haction] at haside
    cases haside
  have hends := Docker.login_ends hsystem c w
  generalize Docker.login remote c w = r at hends
  cases hends with
  | silent w' _ _ works => exact .unclaimed false w' (works.mono haside) nofun
  | escaped f w' _ works => exact .failed f w' (works.mono haside)
  | audited answer details before told w' _ works log later accepted _ =>
    cases answer with
    | true =>
      obtain ⟨p, ⟨hclear, hanswer⟩, hsent⟩ := accepted rfl
      refine .claimed _ [loginCommand c.username p c.registry] before told w' (Audit.words_authentication _ _ true) ?_
        hsent (fun _ => ⟨hanswer, trivial⟩) (works.mono haside) log (later.mono haside)
      rw [changes, hclear]
      rfl
    | false =>
      -- A login that was refused is on record too, as a failure.
      have hlog : Works (fun e => ¬(Task.login c).Claims e) before told := by
        have hkeeps : (auditLogin c.username false details).Keeps (Works fun e => ¬(Task.login c).Claims e) := by
          refine works_log (fun _ => not_claims_of_isOpening) ?_
          rintro e ⟨now, he⟩ ⟨-, -, hresult⟩
          rw [(Audit.words_authentication _ _ false).entry] at he
          cases he
          cases hresult
        rw [← after_of_ok log]
        exact hkeeps before
      have hworks := (works.mono haside).trans hlog
      exact .unclaimed false w' (hworks.trans (later.mono haside)) nofun

theorem ends_of_reached {α : Type} {a : Act α} {message : String} {k : Option α → Act Bool}
    (hworks : a.Keeps (Works fun e => ¬t.Claims e)) (hnone : k none = pure false)
    (hsome : ∀ x w', a w = .ok x w' → Works (fun e => ¬t.Claims e) w w' → Ends remote t w (k (some x) w')) :
    Ends remote t w ((reached a message >>= k) w) := by
  have hreached : Works (fun e => ¬t.Claims e) w ((reached a message).after w) := works_reached hworks w
  cases h : a w with
  | ok x w' =>
    have hfirst := hworks w
    rw [after_of_ok h] at hfirst
    rw [bind_of_ok (reached_of_ok h)]
    exact hsome x w' h hfirst
  | error f w' =>
    rcases reached_of_error message h with ⟨v, hr⟩ | ⟨v, hr⟩
    · rw [after_of_ok hr] at hreached
      rw [bind_of_ok hr, hnone]
      exact .unclaimed false v hreached nofun
    · rw [after_of_error hr] at hreached
      rw [bind_of_error hr]
      exact .failed f v hreached

theorem ends_logout (registry : Text) (w : World) :
    Ends remote (.logout registry) w (Docker.logout remote registry w) := by
  refine ends_of_reached (works_execute _ _) rfl fun r w' h works => ?_
  obtain ⟨hanswer, rfl⟩ := execute_eq_ok h
  cases r with
  | mk success output =>
    cases success with
    | false => exact .unclaimed false _ (works.trans (works_told _ _)) nofun
    | true =>
      have hsent : (Task.logout registry).Sent [logoutCommand registry] w (w.sending (logoutCommand registry)) :=
        List.suffix_rfl
      exact ends_of_log (words_doneReport _ _ _ _) rfl hsent (fun _ => ⟨⟨output, hanswer⟩, trivial⟩) works

theorem ends_helper (name : Text) (w : World) : Ends remote (.helper name) w (configureHelper remote name w) := by
  unfold configureHelper
  by_cases hname : isHelperName name = true
  · rw [if_neg (by simp [hname])]
    refine ends_of_reached (works_useHelper name) rfl fun used w' h works => ?_
    cases used with
    | false => exact .unclaimed false w' works nofun
    | true =>
      have hsent : (Task.helper name).Sent (helperCommands name) w w' := by
        rw [Sent, useHelper_eq_ok h]
        exact List.suffix_rfl
      exact ends_of_log (Audit.words_configurationChange _ _ _) rfl hsent False.elim works
  · rw [if_pos (by simp [hname])]
    exact .unclaimed false _ (works_told _ w) nofun

theorem ends_cleanup (w : World) : Ends remote .cleanup w (Docker.cleanup remote w) := by
  refine ends_of_reached works_remove rfl fun found w' h works => ?_
  have hsent := remove_eq_ok h
  cases found with
  | false =>
    -- There was nothing to be removed, and only the command that looks for it was sent.
    refine .unclaimed true w' works fun _ commands hchanges hmore => ?_
    cases hchanges
    rw [Sent, hsent] at hmore
    exact absurd hmore.length_le (by simp [probes])
  | true =>
    have hremoved : Task.cleanup.Sent [removeCommand] w w' := by
      rw [Sent, hsent]
      exact List.suffix_rfl
    exact ends_of_log (words_doneReport _ _ _ _) rfl hremoved False.elim works

theorem ends (hsystem : FailsAsSystem remote) (t : Task) (w : World) : Ends remote t w (t.act remote w) := by
  cases t with
  | login c => exact ends_login hsystem c w
  | logout registry => exact ends_logout registry w
  | helper name => exact ends_helper name w
  | cleanup => exact ends_cleanup w

variable {t : Task}

private theorem truthful_of_works (h : Works (fun e => ¬t.Claims e) w ((t.act remote).after w)) :
    t.Truthful remote w := by
  obtain ⟨es, hes, hall⟩ := h.queued
  exact ⟨es, hes, fun e he hclaims => absurd hclaims (hall e he)⟩

/-- An answer can only be overlooked where something is claimed. -/
theorem Overlooks.claimed (hsystem : FailsAsSystem remote) (h : t.Overlooks remote w) :
    ∃ r commands before told w', t.act remote w = .ok true w' ∧ r.Words t.event t.action .success ∧
      t.changes w = .ok commands ∧ ¬Succeed remote (t.probes.reverse ++ w.site.sent) commands ∧
      (t.Checked → Succeed remote (t.probes.reverse ++ w.site.sent) commands) ∧
      Works (fun e => ¬t.Claims e) w before ∧ Audit.log r before = .ok () told ∧
      Works (fun e => ¬t.Claims e) told w' := by
  obtain ⟨hresult, commands, hchanges, hsent, hfailed⟩ := h
  have hends := ends hsystem t w
  generalize hr : t.act remote w = a at hends
  cases hends with
  | failed f w' _ =>
    rw [result_of_error hr] at hresult
    cases hresult
  | unclaimed answer w' _ needless =>
    rw [result_of_ok hr] at hresult
    rw [after_of_ok hr] at hsent
    cases hresult
    exact absurd hsent (needless rfl commands hchanges)
  | claimed r commands' before told w' words changes sent checked works log later =>
    rw [hchanges] at changes
    cases changes
    exact ⟨r, commands, before, told, w', rfl, words, hchanges, hfailed, checked, works, log, later⟩

private theorem truthful_of_not_overlooks (hsystem : FailsAsSystem remote) (h : ¬t.Overlooks remote w) :
    t.Truthful remote w := by
  have hends := ends hsystem t w
  generalize hr : t.act remote w = a at hends
  cases hends with
  | failed f w' works => exact truthful_of_works (after_of_error hr ▸ works)
  | unclaimed answer w' works _ => exact truthful_of_works (after_of_ok hr ▸ works)
  | claimed r commands before told w' words changes sent checked works log later =>
    have hrest := (works_of_log log).trans (later.mono fun _ _ => trivial)
    have hall := (works.mono fun _ _ => trivial).trans hrest
    have hresult : (t.act remote).result w = .ok true := result_of_ok hr
    have hafter : (t.act remote).after w = w' := after_of_ok hr
    have hsent : t.Sent commands w w' := sent.trans hrest.sent
    have hdone : t.Done remote w w' := by
      refine ⟨commands, changes, hsent, ?_⟩
      -- Else an answer would have been overlooked.
      by_contra hfailed
      exact h ⟨hresult, commands, changes, hafter ▸ hsent, hfailed⟩
    obtain ⟨es, hes, -⟩ := hall.queued
    exact ⟨es, hafter ▸ hes, fun _ _ _ => ⟨hafter ▸ hdone, hresult⟩⟩

theorem not_truthful_of_overlooks (hsystem : FailsAsSystem remote) (running : w.trail.phase = .running)
    (h : t.Overlooks remote w) : ¬t.Truthful remote w := by
  obtain ⟨r, commands, before, told, w', hr, words, hchanges, hfailed, -, works, log, later⟩ := h.claimed hsystem
  rintro ⟨es, hes, htruth⟩
  rw [after_of_ok hr] at hes
  obtain ⟨now, es₁, es₂, hqueued, -⟩ := queued_around running words works log later
  rw [List.append_cancel_left (hes.symm.trans hqueued)] at htruth
  obtain ⟨⟨commands', hchanges', -, hsucceeded⟩, -⟩ := htruth _ List.mem_append_cons_self ⟨rfl, rfl, rfl⟩
  rw [hchanges] at hchanges'
  cases hchanges'
  exact hfailed hsucceeded

/-- The trail claims only what has been done, unless a task overlooks an answer: logins and logouts never do, and where
another one does so on a running trail, the claim is false. -/
theorem claims_are_true (hsystem : FailsAsSystem remote) (t : Task) (w : World) :
    (t.Checked → t.Truthful remote w) ∧ (¬t.Overlooks remote w → t.Truthful remote w) ∧
      (w.trail.phase = .running → t.Overlooks remote w → ¬t.Truthful remote w) := by
  refine ⟨fun hchecked => ?_, truthful_of_not_overlooks hsystem, not_truthful_of_overlooks hsystem⟩
  refine truthful_of_not_overlooks hsystem fun h => ?_
  obtain ⟨_, _, _, _, _, -, -, -, hfailed, checked, -⟩ := h.claimed hsystem
  exact hfailed (checked hchecked)

theorem claims_are_true_of_helper :
    let w := Audit.start.after ⟨bareSite, { config := {} }, { config := {} }⟩
    let remote : Remote := fun _ _ => .ok ⟨true, []⟩
    FailsAsSystem remote ∧ (Task.helper "pass").Truthful remote w := by
  intro w remote
  have hsystem : FailsAsSystem remote := fun _ _ _ h => nomatch h
  have hnot : ¬(Task.helper "pass").Overlooks remote w := by
    rintro ⟨-, commands, hchanges, -, hfailed⟩
    cases hchanges
    exact hfailed ⟨⟨[], rfl⟩, ⟨[], rfl⟩, ⟨[], rfl⟩, trivial⟩
  exact ⟨hsystem, (claims_are_true hsystem (.helper "pass") w).2.1 hnot⟩

/-- Two false claims: a helper is said to be in use where not even the directory for that could be made, and credentials
are said to be deleted where they could not be removed. -/
theorem false_claims :
    let w := Audit.start.after ⟨bareSite, { config := {} }, { config := {} }⟩
    let full : Remote := fun _ command => .ok ⟨!Text.ofString "mkdir" <+: command, []⟩
    let sealed : Remote := fun _ command => if command = findFile then .ok ⟨true, "exists"⟩ else .ok ⟨false, []⟩
    w.trail.phase = .running ∧ FailsAsSystem full ∧ FailsAsSystem sealed ∧
      ¬(Task.helper "pass").Truthful full w ∧ ¬Task.cleanup.Truthful sealed w := by
  intro w full sealed
  have running : w.trail.phase = .running := by decide +kernel
  have hfull : FailsAsSystem full := fun _ _ _ h => nomatch h
  have hsealed : FailsAsSystem sealed := by
    intro sent command f h
    simp only [sealed] at h
    split at h <;> cases h
  have hhelper : (Task.helper "pass").Overlooks full w :=
    ⟨by decide +kernel, helperCommands "pass", rfl, by decide +kernel, by decide +kernel⟩
  have hcleanup : Task.cleanup.Overlooks sealed w :=
    ⟨by decide +kernel, [removeCommand], rfl, by decide +kernel, by decide +kernel⟩
  exact ⟨running, hfull, hsealed, not_truthful_of_overlooks hfull running hhelper,
    not_truthful_of_overlooks hsealed running hcleanup⟩

end Task

end Custody.Docker
