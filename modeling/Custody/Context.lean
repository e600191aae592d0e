import Custody.Docker.Registry

/-! The security services of a process, opened together and closed together. -/
namespace Custody.Context

def ofSettings (site : Site) (s : Config.Settings) : World where
  site := site
  trail := { config := s.audit }
  secrets := { config := s.secrets, audited := true }

/-- Opens the audit trail, which must succeed, and loads the secrets. -/
def start : Act Unit := do
  Audit.start
  Secrets.load

def close : Act Unit := do
  Secrets.clear
  Audit.stop

end Custody.Context
