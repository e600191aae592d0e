import Custody.Proofs.Docker.Confinement
import Custody.Proofs.Redaction.PlainWords

/-! The command of a login after redaction: nothing is left of the password, however the shell quotes it. -/
namespace Custody.Docker
open Act World Redaction

/-- A pipe into a registry login, in any case and with any white space. -/
def IsPipe (m : Text) : Prop :=
  ∃ gap docker gap' login : Text, m = "|" ++ gap ++ docker ++ gap' ++ login ∧ (∀ c ∈ gap ++ gap', c.isSpace = true) ∧
    gap' ≠ [] ∧ List.Forall₂ Fits "docker".toList docker ∧ List.Forall₂ Fits "login".toList login

/-- A text that itself pipes something into a registry login. -/
def PipesIntoLogin (t : Text) : Prop :=
  ∃ before m after, t = before ++ m ++ after ∧ IsPipe m ∧ ∀ c ∈ after.head?, c.isWord = false

section Reading
variable {t r : Text}

theorem exists_skipSpace (t : Text) : ∃ gap, t = gap ++ skipSpace t ∧ ∀ c ∈ gap, c.isSpace = true :=
  ⟨_, List.takeWhile_append_dropWhile.symm, fun _ hc => List.mem_takeWhile_imp hc⟩

private theorem exists_of_space? (h : space? t = some r) :
    ∃ gap, t = gap ++ r ∧ gap ≠ [] ∧ ∀ c ∈ gap, c.isSpace = true := by
  cases t with
  | nil => cases h
  | cons c t =>
    obtain ⟨hc, h⟩ := Option.ite_none_right_eq_some.1 h
    cases h
    obtain ⟨gap, ht, hgap⟩ := exists_skipSpace t
    refine ⟨c :: gap, ?_, List.cons_ne_nil c gap, List.forall_mem_cons.2 ⟨hc, hgap⟩⟩
    rw [List.cons_append, ← ht]

/-- Before a pipe into a login there may be white space, and behind it no word goes on. -/
theorem registryPipe?_eq_some (h : registryPipe? t = some r) :
    ∃ lead m, t = lead ++ m ++ r ∧ (∀ c ∈ lead, c.isSpace = true) ∧ IsPipe m ∧ ∀ c ∈ r.head?, c.isWord = false := by
  rw [registryPipe?_eq] at h
  simp only [Option.bind_eq_some_iff, Option.map_eq_some_iff] at h
  obtain ⟨v, ⟨u, ⟨s, ⟨q, hpipe, rfl⟩, hdocker⟩, hspace⟩, hlogin⟩ := h
  obtain ⟨hlogin, hboundary⟩ := Option.filter_eq_some_iff.1 hlogin
  obtain ⟨docker, hd, hs⟩ := word?_eq_some.1 hdocker
  obtain ⟨gap', rfl, hne, hgap'⟩ := exists_of_space? hspace
  obtain ⟨login, hl, rfl⟩ := word?_eq_some.1 hlogin
  obtain ⟨lead, ht, hlead⟩ := exists_skipSpace t
  obtain ⟨gap, hq, hgap⟩ := exists_skipSpace q
  have hsign : skipSpace t = ("|" : Text) ++ q := Text.dropPrefix?_eq_some.1 hpipe
  refine ⟨lead, "|" ++ gap ++ docker ++ gap' ++ login, ?_, hlead, ⟨gap, docker, gap', login, rfl, ?_, hne, hd, hl⟩, ?_⟩
  · calc t = lead ++ (("|" : Text) ++ (gap ++ skipSpace q)) := by rw [← hq, ← hsign, ← ht]
      _ = _ := by
        rw [hs]
        simp
  · intro c hc
    exact (List.mem_append.1 hc).elim (hgap c) (hgap' c)
  · intro c hc
    have hn : CodePoint.isWord ('n' : CodePoint) = true := by decide
    rw [isBoundary, hc] at hboundary
    simpa [hn] using hboundary

theorem IsPipe.not_mem {m : Text} (h : IsPipe m) : ∀ q ∈ (['\'', '"'] : Text), q ∉ m := by
  obtain ⟨gap, docker, gap', login, rfl, hspaces, -, hdocker, hlogin⟩ := h
  have hunfit : ∀ q ∈ (['\'', '"'] : Text), q.isSpace = false ∧ q ∉ Text.ofString "|" ∧ Unfit "docker".toList q ∧
    Unfit "login".toList q := by decide
  intro q hq hmem
  obtain ⟨hspace, hsign, hd, hl⟩ := hunfit q hq
  have hnone : q ∉ gap ++ gap' := fun h => by rw [hspaces q h] at hspace; cases hspace
  simp only [List.mem_append, not_or] at hmem hnone
  rcases hmem with (((h | h) | h) | h) | h
  · exact hsign h
  · exact hnone.1 h
  · exact not_mem_of_unfit hd hdocker h
  · exact hnone.2 h
  · exact not_mem_of_unfit hl hlogin h

theorem IsPipe.ne_nil {m : Text} (h : IsPipe m) : m ≠ [] := by
  obtain ⟨gap, docker, gap', login, rfl, -⟩ := h
  exact List.cons_ne_nil _ _

end Reading

section Quoting
variable {p s m w : Text} {c : CodePoint}

theorem quotedPoint_cases (d : CodePoint) :
    d = '\'' ∧ Shell.quotedPoint d = "'\"'\"'" ∨ d ≠ '\'' ∧ Shell.quotedPoint d = [d] := by
  rw [Shell.quotedPoint]
  split
  · next hd => exact Or.inl ⟨hd, rfl⟩
  · next hd => exact Or.inr ⟨hd, rfl⟩

/-- What is quoted without a quote is what was there. -/
theorem prefix_of_quoted (hm : ('\'' : CodePoint) ∉ m) (h : m ++ c :: w = p.flatMap Shell.quotedPoint ++ "'") :
    ∃ after, p = m ++ after ∧ ∀ d ∈ after.head?, d = c := by
  induction m generalizing p with
  | nil =>
    cases p with
    | nil => exact ⟨[], rfl, fun d hd => by cases hd⟩
    | cons d p =>
      refine ⟨d :: p, rfl, fun e he => ?_⟩
      cases he
      rw [List.flatMap_cons] at h
      rcases quotedPoint_cases d with ⟨rfl, hd⟩ | ⟨-, hd⟩
      · rw [hd] at h
        exact (List.cons.inj h).1.symm
      · rw [hd] at h
        exact (List.cons.inj h).1.symm
  | cons e m ih =>
    obtain ⟨he, hm⟩ := not_or.1 (mt List.mem_cons.2 hm)
    cases p with
    | nil => exact absurd (List.cons.inj h).1.symm he
    | cons d p =>
      rw [List.flatMap_cons] at h
      rcases quotedPoint_cases d with ⟨rfl, hd⟩ | ⟨-, hd⟩
      · rw [hd] at h
        exact absurd (List.cons.inj h).1.symm he
      · rw [hd] at h
        obtain ⟨rfl, hrest⟩ := List.cons.inj h
        obtain ⟨after, rfl, hafter⟩ := ih hm hrest
        exact ⟨after, rfl, hafter⟩

/-- A part of a quoted text that has no quotes is a part of the text. -/
theorem part_of_quoted (hm : ('\'' : CodePoint) ∉ m ∧ ('"' : CodePoint) ∉ m) (hne : m ≠ [])
    (h : m ++ c :: w <:+ p.flatMap Shell.quotedPoint ++ "'") :
    ∃ before after, p = before ++ m ++ after ∧ ∀ d ∈ after.head?, d = c := by
  induction p with
  | nil =>
    have hlength := h.length_le
    have hpos : 0 < m.length := List.length_pos_iff.2 hne
    have hone : (List.flatMap Shell.quotedPoint [] ++ ("'" : Text)).length = 1 := rfl
    rw [List.length_append, List.length_cons, hone] at hlength
    omega
  | cons d p ih =>
    rw [List.flatMap_cons, List.append_assoc] at h
    obtain ⟨u, hu⟩ := h
    rcases List.append_eq_append_iff.1 hu with ⟨z, hz, hs⟩ | ⟨z, -, hs⟩
    · cases z with
      | nil =>
        obtain ⟨before, after, rfl, hafter⟩ := ih ⟨[], hs⟩
        exact ⟨d :: before, after, rfl, hafter⟩
      | cons e z =>
        have he : e ∈ m := by
          obtain ⟨e', m, rfl⟩ := List.exists_cons_of_ne_nil hne
          obtain ⟨rfl, -⟩ := List.cons.inj hs
          exact List.mem_cons_self
        have hquoted : e ∈ Shell.quotedPoint d := hz ▸ List.mem_append_right u List.mem_cons_self
        rcases quotedPoint_cases d with ⟨rfl, hd⟩ | ⟨-, hd⟩
        · -- No part begins within the quotes that stand for a quote.
          have hquotes : ∀ e ∈ Text.ofString "'\"'\"'", e = '\'' ∨ e = '"' := by decide
          rcases hquotes e (hd ▸ hquoted) with rfl | rfl
          · exact absurd he hm.1
          · exact absurd he hm.2
        · rw [hd] at hz
          cases u with
          | nil =>
            have hall : m ++ c :: w = (d :: p).flatMap Shell.quotedPoint ++ "'" := by
              rw [hs, ← List.nil_append (e :: z), ← hz, List.flatMap_cons, hd, List.append_assoc]
            obtain ⟨after, hafter⟩ := prefix_of_quoted hm.1 hall
            exact ⟨[], after, hafter⟩
          | cons f u =>
            have hlength := congrArg List.length hz
            rw [List.length_append, List.length_cons, List.length_cons, List.length_cons, List.length_nil] at hlength
            omega
    · obtain ⟨before, after, rfl, hafter⟩ := ih ⟨z, hs.symm⟩
      exact ⟨d :: before, after, rfl, hafter⟩

end Quoting

section Command
variable {p u username registry : Text}

def intoLogin (username registry : Text) : Text :=
  " | docker login -u " ++ Shell.quote username ++ " --password-stdin " ++ Shell.quote registry

theorem registryPipe?_intoLogin (username registry : Text) : ∃ r, registryPipe? (intoLogin username registry) = some r :=
  ⟨_, rfl⟩

/-- A pipe into a login that begins between the quotes around a text is within the text. -/
theorem pipesIntoLogin_of_quoted {rest : Text} (hu : u <:+ "'" ++ p.flatMap Shell.quotedPoint ++ "'") (hne : u ≠ [])
    (h : registryPipe? (u ++ rest) ≠ none) : PipesIntoLogin p := by
  obtain ⟨r, hr⟩ := Option.ne_none_iff_exists'.1 h
  obtain ⟨lead, m, htext, hlead, hpipe, hword⟩ := registryPipe?_eq_some hr
  have hquotes : ∀ q ∈ (['\'', '"'] : Text), q ∉ lead ++ m := by
    intro q hq hmem
    have hspace : ∀ q ∈ (['\'', '"'] : Text), q.isSpace = false := by decide
    rcases List.mem_append.1 hmem with hmem | hmem
    · have hfalse := hspace q hq
      rw [hlead q hmem] at hfalse
      cases hfalse
    · exact hpipe.not_mem q hq hmem
  have hquote : ('\'' : CodePoint) ∉ lead ++ m := hquotes _ List.mem_cons_self
  have hdouble : ('"' : CodePoint) ∉ lead ++ m := hquotes _ (List.mem_cons_of_mem _ List.mem_cons_self)
  have hm : lead ++ m ≠ [] := List.append_ne_nil_of_right_ne_nil lead hpipe.ne_nil
  have hlast : ('\'' : CodePoint) ∈ u := by
    have hend : u.getLast? = some ('\'' : CodePoint) := by
      rw [getLast?_of_suffix hu hne]
      exact List.getLast?_concat
    exact List.mem_of_getLast? hend
  rcases List.append_eq_append_iff.1 htext with ⟨z, hz, -⟩ | ⟨z, hz, hrest⟩
  · exact absurd (hz ▸ List.mem_append_left z hlast) hquote
  · cases z with
    | nil =>
      rw [List.append_nil] at hz
      exact absurd (hz ▸ hlast) hquote
    | cons c z =>
      have hbody : lead ++ m ++ c :: z <:+ p.flatMap Shell.quotedPoint ++ "'" := by
        rw [hz] at hu
        rcases List.suffix_cons_iff.1 hu with hwhole | hbody
        · obtain ⟨d, w, hd⟩ := List.exists_cons_of_ne_nil hm
          rw [hd] at hwhole hquote
          obtain ⟨rfl, -⟩ := List.cons.inj hwhole
          exact absurd List.mem_cons_self hquote
        · exact hbody
      obtain ⟨before, after, rfl, hafter⟩ := part_of_quoted ⟨hquote, hdouble⟩ hm hbody
      refine ⟨before ++ lead, m, after, by simp only [List.append_assoc], hpipe, fun d hd => ?_⟩
      rw [hafter d hd]
      exact hword c (hrest ▸ rfl)

theorem isSpace_of_isPlain {c : CodePoint} (h : Shell.isPlain c = true) : c.isSpace = false := by
  simp only [Shell.isPlain, Bool.or_eq_true, decide_eq_true_eq] at h
  rcases h with (((((((((h | rfl) | rfl) | rfl) | rfl) | rfl) | rfl) | rfl) | rfl) | rfl) | rfl
  · exact isSpace_of_isPayloadChar (isPayloadChar_of_alnum h)
  all_goals rfl

/-- No pipe into a login begins within a quoted password. -/
theorem registryPipe?_quote (hne : p ≠ []) (hp : ¬PipesIntoLogin p) (hu : u <:+ Shell.quote p) (hu' : u ≠ []) (rest : Text) :
    registryPipe? (u ++ rest) = none := by
  rw [Shell.quote, if_neg hne] at hu
  split at hu
  · next hplain =>
    obtain ⟨c, u, rfl⟩ := List.exists_cons_of_ne_nil hu'
    have hc : Shell.isPlain c = true := List.all_eq_true.1 hplain c (hu.mem List.mem_cons_self)
    refine registryPipe?_of_head (isSpace_of_isPlain hc) ?_
    rintro rfl
    cases hc
  · by_contra hpipe
    exact hp (pipesIntoLogin_of_quoted hu hu' hpipe)

/-- A text that a login can print without what is behind it being read otherwise. -/
structure Printed (x : Text) : Prop where
  starts : ∃ c u, x = c :: u ∧ c.isSpace = false
  line : ('\n' : CodePoint) ∉ x
  quiet : ∀ u, u <:+ x → u ≠ [] → ∀ rest, registryPipe? (u ++ rest) = none

theorem printed_mark : Printed mark where
  starts := ⟨_, _, rfl, rfl⟩
  line := by decide
  quiet u hu hne rest := by
    have hplain : ∀ c ∈ mark, c.isSpace = false ∧ c ≠ '|' := by decide
    obtain ⟨c, u, rfl⟩ := List.exists_cons_of_ne_nil hne
    have hc := hplain c (hu.mem List.mem_cons_self)
    exact registryPipe?_of_head hc.1 hc.2

theorem printed_quote (hne : p ≠ []) (hline : ('\n' : CodePoint) ∉ p) (hp : ¬PipesIntoLogin p) : Printed (Shell.quote p) where
  starts := by
    rw [Shell.quote, if_neg hne]
    split
    · next hplain =>
      obtain ⟨c, u, rfl⟩ := List.exists_cons_of_ne_nil hne
      exact ⟨c, u, rfl, isSpace_of_isPlain (List.all_eq_true.1 hplain c List.mem_cons_self)⟩
    · exact ⟨_, _, rfl, rfl⟩
  line := by
    rw [Shell.quote, if_neg hne]
    split
    · exact hline
    · intro hmem
      have hends : ('\n' : CodePoint) ∉ ("'" : Text) := by decide
      rcases List.mem_append.1 hmem with hmem | hmem
      · obtain ⟨d, hd, hmem⟩ := List.mem_flatMap.1 ((List.mem_append.1 hmem).resolve_left hends)
        rcases quotedPoint_cases d with ⟨-, hquoted⟩ | ⟨-, hquoted⟩
        · rw [hquoted] at hmem
          revert hmem
          decide
        · rw [hquoted, List.mem_singleton] at hmem
          exact hline (hmem ▸ hd)
      · exact hends hmem
  quiet u hu hu' rest := registryPipe?_quote hne hp hu hu' rest

/-- What is printed into a login is masked up to the pipe. -/
theorem pipedSecret_printed {x : Text} (hx : Printed x) (username registry : Text) :
    pipedSecret none ("printf '%s\\n' " ++ (x ++ intoLogin username registry)) =
      some ⟨"printf '%s\\n' " ++ mark, intoLogin username registry⟩ := by
  have hboundary : isBoundary none ("printf '%s\\n' " ++ (x ++ intoLogin username registry)) = true := rfl
  have hprinter : printer? ("printf '%s\\n' " ++ (x ++ intoLogin username registry)) =
      some (" " ++ (x ++ intoLogin username registry)) := rfl
  have hstarts : space? (" " ++ (x ++ intoLogin username registry)) = some (x ++ intoLogin username registry) := by
    obtain ⟨c, u, rfl, hc⟩ := hx.starts
    have hskip : skipSpace (c :: u ++ intoLogin username registry) = c :: u ++ intoLogin username registry :=
      List.dropWhile_cons_of_neg (by simp [hc])
    exact congrArg some hskip
  have hpiped : piped? (x ++ intoLogin username registry) = some (intoLogin username registry) := by
    obtain ⟨r, hr⟩ := registryPipe?_intoLogin username registry
    have hall : x.all (fun c => decide (c ≠ ('\n' : CodePoint))) = true := by
      rw [List.all_eq_true]
      exact fun c hc => decide_eq_true fun h => hx.line (h ▸ hc)
    have hfound : seek? (fun c => decide (c ≠ ('\n' : CodePoint))) registryPipe? (intoLogin username registry) =
        some (intoLogin username registry, r) := seek?_of_some hr
    rw [piped?, seek?_append_of_none fun u hu hne => hx.quiet u hu hne _, if_pos hall, hfound]
    rfl
  rw [pipedSecret_eq, bounded, if_pos hboundary]
  refine opened_eq_some.2 ⟨_, _, hprinter, hstarts, hpiped, ?_⟩
  have htext : ("printf '%s\\n' " ++ (x ++ intoLogin username registry) : Text) =
      "printf '%s\\n'" ++ (" " ++ (x ++ intoLogin username registry)) := rfl
  rw [htext, upTo_append]
  rfl

/-- Nothing is printed where white space stands. -/
theorem substitute_intoLogin (b : Option CodePoint) (username registry : Text) :
    substitute pipedSecret b 0 (intoLogin username registry) =
      substitute pipedSecret none 0 (intoLogin username registry) := by
  have hspace : ∀ (b : Option CodePoint) (t : Text), pipedSecret b ((' ' : CodePoint) :: t) = none := by
    intro b t
    have hprinter : printer? ((' ' : CodePoint) :: t) = none := rfl
    rw [pipedSecret_eq, bounded, opened, opening, hprinter]
    exact ite_self none
  obtain ⟨t, ht⟩ : ∃ t : Text, intoLogin username registry = (' ' : CodePoint) :: t := ⟨_, rfl⟩
  rw [ht, substitute_of_none (hspace b t), substitute_of_none (hspace none t)]

/-- The password of a login is masked whatever it is: it does not show in what redaction makes of the command. -/
theorem redact_loginCommand (hne : p ≠ []) (hline : ('\n' : CodePoint) ∉ p) (hp : ¬PipesIntoLogin p)
    (username registry : Text) : redact (loginCommand username p registry) =
      redact ("printf '%s\\n' " ++ mark ++ intoLogin username registry) := by
  -- The two texts are the same behind the first match.
  have hfirst : ∀ x, Printed x → substitute pipedSecret none 0 ("printf '%s\\n' " ++ x ++ intoLogin username registry) =
      "printf '%s\\n' " ++ mark ++ substitute pipedSecret none 0 (intoLogin username registry) := by
    intro x hx
    have hmatch := pipedSecret_printed hx username registry
    rw [← List.append_assoc] at hmatch
    obtain ⟨c, u, hcu⟩ : ∃ c u, ("printf '%s\\n' " ++ x : Text) = c :: u := ⟨_, _, rfl⟩
    rw [hcu] at hmatch ⊢
    rw [substitute_of_some hmatch, substitute_intoLogin]
  have hcommand : loginCommand username p registry =
      "printf '%s\\n' " ++ Shell.quote p ++ intoLogin username registry := by
    simp only [loginCommand, intoLogin, List.append_assoc]
  simp only [redact, rules, List.foldl_cons]
  rw [hcommand, hfirst _ (printed_quote hne hline hp), hfirst _ printed_mark]

end Command

section Sending
variable {remote : Remote} {c : Credentials} {w : World} {p : Text}

private theorem heard_told (heard : Secrets.Heard w) (r : Record) : Secrets.Heard (w.told r) := fun audited =>
  (works_told (P := fun _ => True) r w).listens (heard audited)

private theorem clearPassword_eq (c : Credentials) (w : World) : clearPassword c w =
    if Secrets.isEncrypted w.secrets.config.encryptedPrefix (some c.password) = true then
      Secrets.decryptValue c.password "docker.password" w
    else .ok c.password (w.told ⟨.warning, .docker, "docker_password_plaintext", []⟩) := by
  rw [clearPassword, bind_of_ok (Secrets.looksEncrypted_eq w _)]
  split <;> rfl

/-- Whether a password can be had in the clear does not depend on what was reported before. -/
theorem clearPassword_told (opened : (clearPassword c).result w = .ok p) (r : Record) :
    ∃ w', clearPassword c (w.told r) = .ok p w' ∧ w'.site.sent = w.site.sent := by
  obtain ⟨v, hv⟩ := result_eq_ok.1 opened
  have hclear : c.clear (w.told r) = .ok p := by
    have hsame : c.clear (w.told r) = c.clear w := rfl
    rcases clearPassword_cases c w with ⟨q, v', hq, hclear, -⟩ | ⟨f, v', hf, -⟩
    · rw [hv] at hq
      cases hq
      exact hsame.trans hclear
    · rw [hv] at hf
      cases hf
  have hreturns : (clearPassword c).Returns (w.told r) := by
    rw [clearPassword_eq] at hv
    rw [Returns, clearPassword_eq]
    split
    · next hmarked =>
      -- The report on a decryption is taken here as it was taken there.
      have hthere : Secrets.decryptValue c.password "docker.password" w = .ok p v :=
        (if_pos (show Secrets.isEncrypted w.secrets.config.encryptedPrefix _ = true from hmarked)).symm.trans hv
      have heard := heard_told (heard_of_decryptValue (returns_of_ok hthere)) r
      obtain ⟨v', hv'⟩ := result_eq_ok.1 ((decryptValue_clear hmarked heard).trans hclear)
      exact returns_of_ok hv'
    · exact ⟨_, _, rfl⟩
  rcases clearPassword_cases c (w.told r) with ⟨q, v', hq, hclear', hmute, -⟩ | ⟨f, v', hf, -⟩
  · rw [hclear] at hclear'
    cases hclear'
    exact ⟨v', hq, hmute⟩
  · exact absurd hreturns (not_returns_of_error hf)

theorem works_conclude (r : Reply) : (conclude remote c r).Keeps (Works fun _ => True) := by
  have haudit (success : Bool) (details : Text) : (auditLogin c.username success details).Keeps (Works fun _ => True) :=
    works_log (fun _ _ => trivial) fun _ _ => trivial
  have hsecure : (secure remote).Keeps (Works fun _ => True) := .orElse (works_executeAll _ _) fun _ => works_tell _ _ _
  unfold conclude
  split
  · exact .bind (works_tell _ _ _) fun _ => .bind (haudit _ _) fun _ => .pure false
  · exact .bind (works_tell _ _ _) fun _ => .bind (haudit _ _) fun _ => .bind hsecure fun _ => .pure true

private theorem sent_of_execute (command : Text) (w : World) :
    ((do return some (← execute remote command) : Act (Option Reply)).after w).site.sent = command :: w.site.sent := by
  rw [after_map some, after_execute]
  rfl

/-- A login begins with its command, once it has a password. -/
theorem login_sends (name : isUsername c.username = true) (registry : c.registry ≠ [])
    (opened : (clearPassword c).result w = .ok p) (ne : p ≠ []) (remote : Remote) :
    ∃ later, ((login remote c).after w).site.sent =
      later ++ loginCommand c.username p c.registry :: w.site.sent := by
  have hreport : ∀ e, (do
      tell .error "docker_login_error" [userField c.username, Value.field "error" (.text (Failure.kind e).label)]
      auditLogin c.username false ("Docker login error: " ++ e.kind.label)
      return none : Act (Option Reply)).Keeps (Works fun _ => True) := fun e =>
    .bind (works_tell _ _ _) fun _ => .bind (works_log (fun _ _ => trivial) fun _ _ => trivial) fun _ => .pure none
  have hconclude : ∀ found : Option Reply, (found.elim (pure false) (conclude remote c)).Keeps (Works fun _ => True) := by
    intro found
    cases found with
    | none => exact .pure false
    | some r => exact works_conclude r
  obtain ⟨v, hv, hsent⟩ := clearPassword_told opened ⟨.info, .docker, "docker_login_started",
    [userField c.username, Value.field "registry" (.text c.registry)]⟩
  have hrun := login_of_accepted name registry remote w
  generalize w.told _ = w₁ at hv hrun
  have hattempt : ((attempt remote c).after w₁).site.sent = loginCommand c.username p c.registry :: w.site.sent := by
    rw [← hsent, after, attempt, bind_of_ok hv, if_neg ne, ← after]
    exact sent_of_execute _ v
  have hgrows := (Keeps.after_orElse hreport (attempt remote c) isLoginFailure w₁).trans
    (Keeps.after_bind hconclude (reply? remote c) w₁)
  obtain ⟨later, hlater⟩ := hgrows.sent
  refine ⟨later, ?_⟩
  rw [after, hrun, ← after, ← hattempt]
  exact hlater.symm

/-- Whatever the password of a login is, redaction makes of its command what it makes of the same command with a mark
in place of the quoted password. -/
theorem login_command_is_masked (name : isUsername c.username = true) (registry : c.registry ≠ [])
    (opened : (clearPassword c).result w = .ok p) (ne : p ≠ []) (line : ('\n' : CodePoint) ∉ p)
    (quiet : ¬PipesIntoLogin p) (remote : Remote) :
    ∃ later command, ((login remote c).after w).site.sent = later ++ command :: w.site.sent ∧
      command = "printf '%s\\n' " ++ Shell.quote p ++ intoLogin c.username c.registry ∧
      redact command = redact ("printf '%s\\n' " ++ mark ++ intoLogin c.username c.registry) := by
  obtain ⟨later, hsent⟩ := login_sends name registry opened ne remote
  refine ⟨later, _, hsent, ?_, redact_loginCommand ne line quiet c.username c.registry⟩
  simp only [loginCommand, intoLogin, List.append_assoc]

/-- A password with quotes, a pipe and an option in it is masked like any other. -/
theorem hostile_password_is_masked :
    let w : World := ⟨bareSite, { config := {} }, { config := {} }⟩
    let remote : Remote := fun _ _ => .ok ⟨true, []⟩
    let c : Credentials := ⟨"bob", "it's | a -p 'pipe'", defaultRegistry⟩
    ∃ later command, ((login remote c).after w).site.sent = later ++ command :: w.site.sent ∧
      command = "printf '%s\\n' " ++ Shell.quote c.password ++ intoLogin c.username c.registry ∧
      redact command = redact ("printf '%s\\n' " ++ mark ++ intoLogin c.username c.registry) := by
  intro w remote c
  have name : isUsername c.username = true := by decide +kernel
  have registry : c.registry ≠ [] := by decide +kernel
  have opened : (clearPassword c).result w = .ok c.password := by decide +kernel
  have hplain : c.password ≠ [] ∧ ('\n' : CodePoint) ∉ c.password ∧ ∀ d ∈ c.password, ¬Fits 'd' d := by decide +kernel
  have quiet : ¬PipesIntoLogin c.password := by
    rintro ⟨before, m, after, hp, ⟨gap, docker, gap', login, rfl, -, -, hdocker, -⟩, -⟩
    obtain ⟨d, docker, hd, -, rfl⟩ := List.forall₂_cons_left_iff.1 hdocker
    refine hplain.2.2 d ?_ hd
    rw [hp]
    simp
  exact login_command_is_masked name registry opened hplain.1 hplain.2.1 quiet remote

end Sending

end Custody.Docker
