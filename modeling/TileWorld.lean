import TileWorld.Catalog.Basic
import TileWorld.Client.Scene
import TileWorld.Region.Command
import TileWorld.Server.Event
import TileWorld.Server.Settings
import TileWorld.Session.Binding
import TileWorld.World.Command
import TileWorld.Proofs.Local
import TileWorld.Proofs.World.View
import TileWorld.Proofs.World.Representation
import TileWorld.Proofs.Server.Crew
import TileWorld.Proofs.Region.History
import TileWorld.Proofs.Region.Search
import TileWorld.Proofs.Client.Expectation
import TileWorld.Proofs.Region.Allotment
import TileWorld.Proofs.World.Announcement
import TileWorld.Proofs.World.Round
import TileWorld.Proofs.World.Stopping
import TileWorld.Proofs.World.Loss
import TileWorld.Proofs.World.Pacing
import TileWorld.Proofs.World.Refusal
import TileWorld.Proofs.Server.Release
import TileWorld.Proofs.Region.Renaming
import TileWorld.Proofs.World.Calm
import TileWorld.Proofs.World.Replay
import TileWorld.Proofs.World.Balance
import TileWorld.Proofs.Server.Authority
import TileWorld.Proofs.Server.Interleaving
import TileWorld.Proofs.Client.Requests
import TileWorld.Proofs.World.Names
import TileWorld.Proofs.Server.Commands
import TileWorld.Proofs.World.Order
import TileWorld.Proofs.World.Chronicle
import TileWorld.Proofs.Server.Names
import TileWorld.Proofs.World.Marks
import TileWorld.Proofs.World.Freshness
import TileWorld.Proofs.World.Attacks
import TileWorld.Proofs.Session.Matching
import TileWorld.Proofs.World.Audience
import TileWorld.Proofs.World.Upkeep
import TileWorld.Proofs.World.Relocation
import TileWorld.Proofs.Visibility.Survey
import TileWorld.Proofs.Server.Entrance
import TileWorld.Proofs.World.Gates
import TileWorld.Proofs.World.Hooks
import TileWorld.Proofs.World.Population
import TileWorld.Proofs.Random.Separation
import TileWorld.Proofs.Entity.Walking
import TileWorld.Proofs.Catalog.Contents
import TileWorld.Proofs.Entity.Leash
import TileWorld.Proofs.World.Leash
import TileWorld.Proofs.Random.Exactness
import TileWorld.Proofs.Wire.Codec
