import SpriteMachine.Main
import SpriteMachine.Proofs.Confinement
import SpriteMachine.Proofs.Stopping
import SpriteMachine.Proofs.Timekeeping
import SpriteMachine.Proofs.Prompts
import SpriteMachine.Proofs.Synchrony
import SpriteMachine.Proofs.Independence
import SpriteMachine.Proofs.Keys
import SpriteMachine.Proofs.Following
import SpriteMachine.Proofs.Passes
import SpriteMachine.Proofs.Variables
import SpriteMachine.Proofs.Decoding
import SpriteMachine.Proofs.FanOut
import SpriteMachine.Proofs.Waiting
import SpriteMachine.Proofs.Repetition
import SpriteMachine.Proofs.Arguments
import SpriteMachine.Proofs.References
import SpriteMachine.Proofs.Comparison
import SpriteMachine.Proofs.Positions
import SpriteMachine.Proofs.Radix
import SpriteMachine.Proofs.Costumes
import SpriteMachine.Proofs.Directions
import SpriteMachine.Proofs.Ids
import SpriteMachine.Proofs.Rest
import SpriteMachine.Proofs.Strokes
import SpriteMachine.Proofs.Monitors
import SpriteMachine.Proofs.Pruning
