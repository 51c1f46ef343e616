import MessageStore.Command.Bench
import MessageStore.Command.Dump

/-!
# Commands

Carries out what the arguments ask for, on a volume and with a clock.
-/

namespace MessageStore

namespace Command

/-- Carries out a command with its configuration, if no part of it takes
more than `limit` steps. -/
def run (limit : Nat) (config : Config) (clock : Clock) (volume : Volume) :
    Command → Option Conclusion
  | .publish arguments => Publish.run limit config arguments clock volume
  | .dump arguments => some (Dump.run config arguments volume)
  | .bench arguments => Bench.run limit config arguments clock volume

end Command

namespace Arguments

def loadConfig (arguments : Arguments) (volume : Volume) :
    Except Failure Config × Volume :=
  let (loaded, volume) : Except Failure Config × Volume :=
    match arguments.config with
    | none => (.ok {}, volume)
    | some path =>
      let (loaded, volume) := Config.load volume path
      (loaded.mapError (.loadingConfig path), volume)
  let inDirectory (config : Config) : Config :=
    match arguments.directory with
    | none => config
    | some directory => { config with storage.directory := directory }
  (loaded.map inDirectory, volume)

def run (limit : Nat) (clock : Clock) (volume : Volume) (arguments : Arguments) :
    Option Conclusion :=
  match arguments.loadConfig volume with
  | (.error failure, volume) => some { failure := some failure, volume }
  | (.ok config, volume) => arguments.command.run limit config clock volume

end Arguments

end MessageStore
