import Custody.Proofs.Docker.Login
import Custody.Proofs.Shell.Reading

/-! Where the password of a login shows up: as one word of the command that is sent first, and nowhere else. -/
namespace Custody.Docker
open Act World Shell

variable {remote remote' : Remote} {c : Credentials} {w : World}

/-- The shell reads a login as two commands of which the first feeds the second, whatever the three texts hold. -/
theorem read_loginCommand (username password registry : Text) :
    read? (loginCommand username password registry) = some (pipeline [["printf", "%s\\n", password],
      ["docker", "login", "-u", username, "--password-stdin", registry]]) := by
  have hprintf : Reader.run {} "printf '%s\\n' " = some ([.word "printf", .word "%s\\n"], {}) := by decide +kernel
  have hpipe : Reader.run {} "| docker login -u " =
      some ([.operator "|", .word "docker", .word "login", .word "-u"], {}) := by decide +kernel
  have hstdin : Reader.run {} "--password-stdin " = some ([.word "--password-stdin"], {}) := by decide +kernel
  have hword {t rest : Text} {more : List Token} (h : Reader.run {} rest = some (more, {})) :
      Reader.run ⟨.plain, some t⟩ ((' ' : CodePoint) :: rest) = some (.word t :: more, {}) := by
    have hblank : Reader.step ⟨.plain, some t⟩ ' ' = some ([.word t], {}) := rfl
    exact Reader.run_cons hblank h
  have hrun : Reader.run {} (loginCommand username password registry) =
      some ([.word "printf", .word "%s\\n", .word password, .operator "|", .word "docker", .word "login", .word "-u",
        .word username, .word "--password-stdin"], ⟨.plain, some registry⟩) := by
    have hfirst := Reader.run_append hprintf (Reader.run_quote password)
    have hsecond := Reader.run_append (Reader.run_append hfirst (hword hpipe)) (Reader.run_quote username)
    exact Reader.run_append (Reader.run_append hsecond (hword hstdin)) (Reader.run_quote registry)
  rw [read?, hrun]
  rfl

/-- A password in the clear that a login can use: it is not empty, and it is not marked as encrypted. -/
structure IsClear (w : World) (password : Text) : Prop where
  ne : password ≠ []
  unmarked : ¬w.secrets.config.encryptedPrefix <+: password

theorem IsClear.not_isEncrypted {password : Text} (h : IsClear w password) :
    Secrets.isEncrypted w.secrets.config.encryptedPrefix (some password) = false := by
  rw [Bool.eq_false_iff, Ne, Secrets.isEncrypted_some]
  exact fun hm => h.unmarked hm.2

/-- Traces that are the same but for one command, the first after some others. -/
def Beyond (a b : Text) (sent : List Text) (s t : Traces) : Prop :=
  s.1 = t.1 ∧ ∃ later, s.2 = later ++ a :: sent ∧ t.2 = later ++ b :: sent

/-- Two ways to a host answer alike after some commands: the same to one command as to another, and the same to
whatever is sent later. -/
structure AnswerAlike (remote remote' : Remote) (a b : Text) (sent : List Text) : Prop where
  first : remote' sent b = remote sent a
  later : ∀ after command, remote' (after ++ b :: sent) command = remote (after ++ a :: sent) command

section Alike
variable {a b : Text} {sent : List Text}

theorem reportable_beyond : Reportable (Beyond a b sent) := by
  rintro r _ _ s t ⟨hrecords, hsent⟩
  exact ⟨congrArg (r :: ·) hrecords, hsent⟩

theorem agree_tell (level : Level) (message : String) (fields : List (Text × Value)) :
    Agree (Twins (Beyond a b sent)) (tell level message fields) (tell level message fields) :=
  agree_report reportable_beyond _ _ _ _

theorem agree_auditLogin (username : Text) (success : Bool) (details : Text) :
    Agree (Twins (Beyond a b sent)) (auditLogin username success details) (auditLogin username success details) :=
  Audit.agree_log reportable_beyond _

variable (halike : AnswerAlike remote remote' a b sent)
include halike

theorem agree_execute (command : Text) :
    Agree (Twins (Beyond a b sent)) (execute remote command) (execute remote' command) := by
  rintro v _ ⟨records, sent', rfl, hrecords, later, hv, hsent⟩
  have hanswer : remote' sent' command = remote v.site.sent command := by
    rw [show v.site.sent = later ++ a :: sent from hv, show sent' = later ++ b :: sent from hsent]
    exact halike.later later command
  have hsame : Twins (Beyond a b sent) (v.sending command)
      (World.sending command { v with site := { v.site with records, sent := sent' } }) :=
    ⟨records, command :: sent', rfl, hrecords, command :: later, congrArg (command :: ·) hv,
      congrArg (command :: ·) hsent⟩
  cases h : remote v.site.sent command with
  | ok r =>
    rw [execute_of_ok h, execute_of_ok (hanswer.trans h)]
    exact .ok r hsame
  | error f =>
    rw [execute_of_error h, execute_of_error (hanswer.trans h)]
    exact .error f hsame

theorem agree_executeAll (commands : List Text) :
    Agree (Twins (Beyond a b sent)) (executeAll remote commands) (executeAll remote' commands) := by
  induction commands with
  | nil => exact .pure ()
  | cons command rest ih => exact .bind (agree_execute halike command) fun _ => ih

theorem agree_conclude (password : Text) (r : Reply) :
    Agree (Twins (Beyond a b sent)) (conclude remote c r) (conclude remote' { c with password } r) := by
  unfold conclude
  split
  · exact .bind (agree_tell _ _ _) fun _ => .bind (agree_auditLogin _ _ _) fun _ => .pure false
  · have hsecure : Agree (Twins (Beyond a b sent)) (secure remote) (secure remote') :=
      .orElse (agree_executeAll halike _) fun _ => agree_tell _ _ _
    exact .bind (agree_tell _ _ _) fun _ => .bind (agree_auditLogin _ _ _) fun _ => .bind hsecure fun _ => .pure true

end Alike

theorem execute_alike {a b : Text} (halike : AnswerAlike remote remote' a b w.site.sent) :
    Alike (Twins (Beyond a b w.site.sent)) (execute remote a w) (execute remote' b w) := by
  have hsame : Twins (Beyond a b w.site.sent) (w.sending a) (w.sending b) :=
    ⟨w.site.records, b :: w.site.sent, rfl, rfl, [], rfl, rfl⟩
  cases h : remote w.site.sent a with
  | ok r =>
    rw [execute_of_ok h, execute_of_ok (halike.first.trans h)]
    exact .ok r hsame
  | error f =>
    rw [execute_of_error h, execute_of_error (halike.first.trans h)]
    exact .error f hsame

/-- The command with which credentials log in if their password is clear. -/
def Credentials.command (c : Credentials) : Text := loginCommand c.username c.password c.registry

/-- A login whose user name and registry will do comes to the reply. -/
theorem login_of_accepted (name : isUsername c.username = true) (registry : c.registry ≠ []) (remote : Remote) (w : World) :
    login remote c w = (reply? remote c >>= fun found => found.elim (pure false) (conclude remote c))
      (w.told ⟨.info, .docker, "docker_login_started",
        [userField c.username, Value.field "registry" (.text c.registry)]⟩) := by
  let w₁ := w.told ⟨.info, .docker, "docker_login_started",
    [userField c.username, Value.field "registry" (.text c.registry)]⟩
  rw [login, bind_of_ok (tell_eq _ _ _ _), if_neg (by simp [name])]
  refine (congrFun (if_neg registry) w₁).trans ?_
  refine congrArg (fun f => (reply? remote c >>= f) w₁) (funext fun found => ?_)
  cases found <;> rfl

section Passwords
variable {password : Text} (hp : IsClear w c.password) (hq : IsClear w password)
  (halike : AnswerAlike remote remote' c.command { c with password }.command w.site.sent)
include hp hq halike

theorem attempt_alike : Alike (Twins (Beyond c.command { c with password }.command w.site.sent))
    (attempt remote c w) (attempt remote' { c with password } w) := by
  let w₁ := w.told ⟨.warning, .docker, "docker_password_plaintext", []⟩
  have hrun (r : Remote) (d : Credentials) (h : IsClear w d.password) :
      attempt r d w = (do return some (← execute r d.command) : Act (Option Reply)) w₁ := by
    have hclear : clearPassword d w = .ok d.password w₁ := by
      rw [clearPassword, bind_of_ok (Secrets.looksEncrypted_eq w _), h.not_isEncrypted]
      rfl
    rw [attempt, bind_of_ok hclear, if_neg h.ne]
    rfl
  rw [hrun remote c hp, hrun remote' { c with password } hq]
  have hexecute := execute_alike (w := w₁) halike
  exact hexecute.bind fun _ => .pure _

theorem login_alike (name : isUsername c.username = true) (registry : c.registry ≠ []) :
    Alike (Twins (Beyond c.command { c with password }.command w.site.sent))
      (login remote c w) (login remote' { c with password } w) := by
  let w₁ := w.told ⟨.info, .docker, "docker_login_started",
    [userField c.username, Value.field "registry" (.text c.registry)]⟩
  have hattempt := attempt_alike (w := w₁) ⟨hp.ne, hp.unmarked⟩ ⟨hq.ne, hq.unmarked⟩ halike
  have hreply : Alike (Twins (Beyond c.command { c with password }.command w.site.sent))
      (reply? remote c w₁) (reply? remote' { c with password } w₁) :=
    hattempt.orElse fun e => .bind (agree_tell _ _ _) fun _ => .bind (agree_auditLogin _ _ _) fun _ => .pure none
  -- What is reported before the first command does not name the password.
  rw [login_of_accepted name registry, login_of_accepted (c := { c with password }) name registry]
  refine hreply.bind fun found => ?_
  cases found with
  | none => exact .pure false
  | some r => exact agree_conclude halike password r

end Passwords

/-- The password of a login is one word of the command that is sent first, which the shell reads as a pipeline of two
commands; and with another password and the same answers, everything but that command is the same. -/
theorem login_confines_password (name : isUsername c.username = true) (registry : c.registry ≠ [])
    (clear : IsClear w c.password) :
    (∀ remote, ∃ later command, ((login remote c).after w).site.sent = later ++ command :: w.site.sent ∧
      read? command = some (pipeline [["printf", "%s\\n", c.password],
        ["docker", "login", "-u", c.username, "--password-stdin", c.registry]])) ∧
    ∀ password, IsClear w password → ∀ remote remote',
      AnswerAlike remote remote' c.command { c with password }.command w.site.sent →
        let v := (login remote c).after w
        (login remote' { c with password }).result w = (login remote c).result w ∧
        ∃ later, v.site.sent = later ++ c.command :: w.site.sent ∧
          (login remote' { c with password }).after w =
            { v with site := { v.site with sent := later ++ { c with password }.command :: w.site.sent } } := by
  constructor
  · intro remote
    -- A login beside itself shows which command it sends first.
    have halike : AnswerAlike remote remote c.command { c with password := c.password }.command w.site.sent :=
      ⟨rfl, fun _ _ => rfl⟩
    obtain ⟨_, _, -, -, later, hsent, -⟩ := (login_alike clear clear halike name registry).after
    exact ⟨later, c.command, hsent, read_loginCommand _ _ _⟩
  · intro password hq remote remote' halike v
    have hends := login_alike clear hq halike name registry
    obtain ⟨records, sent, hafter, hrecords, later, hv, hsent⟩ := hends.after
    refine ⟨hends.result_eq, later, hv, ?_⟩
    rw [hafter, ← show v.site.records = records from hrecords, ← show sent = _ from hsent]

/-- A password that tries to be a command of its own is a word like any other. -/
theorem login_confines_hostile_password :
    let w : World := ⟨bareSite, { config := {} }, { config := {} }⟩
    let remote : Remote := fun sent _ => .ok ⟨sent.length = 0, []⟩
    let c : Credentials := ⟨"bob", "'; rm -rf / #", defaultRegistry⟩
    let d : Credentials := ⟨"bob", "swordfish", defaultRegistry⟩
    (∃ later command, ((login remote c).after w).site.sent = later ++ command :: w.site.sent ∧
      read? command = some (pipeline [["printf", "%s\\n", "'; rm -rf / #"],
        ["docker", "login", "-u", "bob", "--password-stdin", defaultRegistry]])) ∧
    (login remote d).result w = (login remote c).result w := by
  intro w remote c d
  have hmark : ∀ t ∈ [c.password, d.password], t ≠ [] ∧ ¬Secrets.encryptedPrefix <+: t := by decide +kernel
  have hc : IsClear w c.password := ⟨(hmark _ (by simp)).1, (hmark _ (by simp)).2⟩
  have hd : IsClear w d.password := ⟨(hmark _ (by simp)).1, (hmark _ (by simp)).2⟩
  have name : isUsername c.username = true := by decide +kernel
  have registry : c.registry ≠ [] := by decide +kernel
  have halike : AnswerAlike remote remote c.command d.command w.site.sent := by
    refine ⟨rfl, fun after command => ?_⟩
    simp [remote]
  obtain ⟨hfirst, hother⟩ := login_confines_password name registry hc
  exact ⟨hfirst remote, (hother d.password hd remote remote halike).1⟩

end Custody.Docker
